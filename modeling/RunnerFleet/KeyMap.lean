/-!
# Maps from strings, in the order of their keys

A map is the list of its entries in strictly increasing order of their keys. Equal contents
therefore mean equal maps, and listing a map needs no sorting. Strings are ordered by code points,
which is the order of their UTF-8 bytes.

Main results:

- `get?_insert`, `get?_erase`: what a look-up sees after a change.
- `get?_insert_eq_some_iff`, `get?_erase_eq_some_iff`: what it finds.
- `ext_get?`: maps that answer every look-up alike are equal.
- `mem_entries_iff_get?`: the entries are exactly what look-ups find.
-/

namespace RunnerFleet

/-- A finite map from strings to `α`. -/
structure KeyMap (α : Type) where
  /-- Every key with its value, in increasing order of the keys. -/
  entries : List (String × α)
  /-- No key occurs twice, and the keys increase. -/
  sorted : entries.Pairwise (fun a b => a.1 < b.1) := by simp
deriving DecidableEq

namespace KeyMap

variable {α : Type}

/-! ## Entries in order -/

/-- Put `value` under `key` into entries that are in order. -/
def insertEntry (key : String) (value : α) : List (String × α) → List (String × α)
  | [] => [(key, value)]
  | entry :: rest =>
      if key < entry.1 then (key, value) :: entry :: rest
      else if entry.1 < key then entry :: insertEntry key value rest
      else (key, value) :: rest

/-- After an insertion there is the new entry and nothing that was not there before. -/
theorem mem_insertEntry {key : String} {value : α} {entries : List (String × α)}
    {e : String × α} (h : e ∈ insertEntry key value entries) :
    e = (key, value) ∨ e ∈ entries := by
  induction entries with
  | nil => simpa [insertEntry] using h
  | cons entry rest ih =>
      simp only [insertEntry] at h
      split at h
      · simpa using h
      · split at h
        · rcases List.mem_cons.1 h with rfl | h
          · simp
          · rcases ih h with h | h <;> simp [h]
        · rcases List.mem_cons.1 h with h | h <;> simp [h]

/-- Insertion keeps the entries in strictly increasing order of their keys. -/
theorem sorted_insertEntry {key : String} {value : α} {entries : List (String × α)}
    (h : entries.Pairwise (fun a b => a.1 < b.1)) :
    (insertEntry key value entries).Pairwise (fun a b => a.1 < b.1) := by
  induction entries with
  | nil => simp [insertEntry]
  | cons entry rest ih =>
      have hp := List.pairwise_cons.1 h
      simp only [insertEntry]
      split
      · rename_i hlt
        refine List.pairwise_cons.2 ⟨?_, h⟩
        intro e he
        rcases List.mem_cons.1 he with rfl | he
        · exact hlt
        · exact String.lt_trans hlt (hp.1 e he)
      · rename_i hnlt
        split
        · rename_i hgt
          refine List.pairwise_cons.2 ⟨?_, ih hp.2⟩
          intro e he
          rcases mem_insertEntry he with rfl | he
          · exact hgt
          · exact hp.1 e he
        · rename_i hngt
          have heq : key = entry.1 :=
            String.le_antisymm (String.not_lt.1 hngt) (String.not_lt.1 hnlt)
          refine List.pairwise_cons.2 ⟨?_, hp.2⟩
          intro e he
          simpa [heq] using hp.1 e he

/-! ## Maps -/

/-- The map without entries. -/
def empty : KeyMap α where
  entries := []

instance : Inhabited (KeyMap α) := ⟨empty⟩

/-- The value under `key`, if there is one. -/
def get? (m : KeyMap α) (key : String) : Option α :=
  m.entries.lookup key

/-- Put `value` under `key`, in place of a value that was there. -/
def insert (m : KeyMap α) (key : String) (value : α) : KeyMap α where
  entries := insertEntry key value m.entries
  sorted := sorted_insertEntry m.sorted

/-- Remove what is under `key`. -/
def erase (m : KeyMap α) (key : String) : KeyMap α where
  entries := m.entries.filter (fun e => e.1 != key)
  sorted := m.sorted.filter _

/-- The map with these entries, where of two entries for one key the later one counts. -/
def ofList (entries : List (String × α)) : KeyMap α :=
  entries.foldl (fun m e => m.insert e.1 e.2) empty

/-- Whether there is a value under `key`. -/
def contains (m : KeyMap α) (key : String) : Bool :=
  (m.get? key).isSome

/-- The keys in increasing order. -/
def keys (m : KeyMap α) : List String :=
  m.entries.map Prod.fst

/-- The values in the order of their keys. -/
def values (m : KeyMap α) : List α :=
  m.entries.map Prod.snd

/-- The number of entries. -/
def size (m : KeyMap α) : Nat :=
  m.entries.length

/-- Whether there are no entries. -/
def isEmpty (m : KeyMap α) : Bool :=
  m.entries.isEmpty

/-! ## What look-ups see -/

/-- The first entry answers for its own key and hides no other. -/
theorem lookup_cons_eq_ite (key : String) (value : α) (entries : List (String × α)) (k : String) :
    ((key, value) :: entries).lookup k = if k = key then some value else entries.lookup k := by
  by_cases h : k = key
  · simp [h]
  · simp [List.lookup_cons, h, beq_false_of_ne h]

/-- An insertion changes the answer at its own key only. -/
theorem lookup_insertEntry (key : String) (value : α) (entries : List (String × α))
    (k : String) :
    (insertEntry key value entries).lookup k =
      if k = key then some value else entries.lookup k := by
  induction entries with
  | nil => rw [insertEntry, lookup_cons_eq_ite]
  | cons entry rest ih =>
      obtain ⟨k', v'⟩ := entry
      simp only [insertEntry]
      split
      · rw [lookup_cons_eq_ite]
      · rename_i hnlt
        split
        · rename_i hgt
          have hne : k' ≠ key := fun h => String.lt_irrefl key (h ▸ hgt)
          rw [lookup_cons_eq_ite, lookup_cons_eq_ite, ih]
          grind
        · rename_i hngt
          have heq : key = k' :=
            String.le_antisymm (String.not_lt.1 hngt) (String.not_lt.1 hnlt)
          rw [lookup_cons_eq_ite, lookup_cons_eq_ite]
          grind

/-- The empty map answers no key. -/
@[simp]
theorem get?_empty (key : String) : (empty : KeyMap α).get? key = none :=
  rfl

/-- A map after an insertion: the new value at its key, the old answer elsewhere. -/
@[simp]
theorem get?_insert (m : KeyMap α) (key : String) (value : α) (k : String) :
    (m.insert key value).get? k = if k = key then some value else m.get? k :=
  lookup_insertEntry key value m.entries k

/-- A map after a removal: nothing at the key, the old answer elsewhere. -/
@[simp]
theorem get?_erase (m : KeyMap α) (key k : String) :
    (m.erase key).get? k = if k = key then none else m.get? k := by
  unfold get? erase
  simp only
  generalize m.entries = entries
  induction entries with
  | nil => simp
  | cons entry rest ih =>
      obtain ⟨k', v'⟩ := entry
      by_cases hkey : k' = key
      · rw [List.filter_cons_of_neg (by simp [hkey]), ih, lookup_cons_eq_ite]
        grind
      · rw [List.filter_cons_of_pos (by simp [hkey]), lookup_cons_eq_ite, lookup_cons_eq_ite, ih]
        grind

/-- What is found after an insertion is what was put in, or was there under another key. -/
theorem get?_insert_eq_some_iff {m : KeyMap α} {key k : String} {value found : α} :
    (m.insert key value).get? k = some found ↔
      k = key ∧ found = value ∨ k ≠ key ∧ m.get? k = some found := by
  by_cases h : k = key <;> simp [h, eq_comm]

/-- What is found after a removal was there under another key. -/
theorem get?_erase_eq_some_iff {m : KeyMap α} {key k : String} {found : α} :
    (m.erase key).get? k = some found ↔ k ≠ key ∧ m.get? k = some found := by
  by_cases h : k = key <;> simp [h]

/-- The entries are exactly what look-ups find. -/
theorem mem_entries_iff_get? {m : KeyMap α} {key : String} {value : α} :
    (key, value) ∈ m.entries ↔ m.get? key = some value := by
  obtain ⟨entries, sorted⟩ := m
  simp only [get?]
  induction entries with
  | nil => simp
  | cons entry rest ih =>
      obtain ⟨k', v'⟩ := entry
      have hp := List.pairwise_cons.1 sorted
      rw [lookup_cons_eq_ite, List.mem_cons, ih hp.2]
      by_cases hk : key = k'
      · subst hk
        have hnot : rest.lookup key ≠ some value := fun h =>
          String.lt_irrefl key (hp.1 (key, value) ((ih hp.2).2 h))
        simp [hnot, eq_comm]
      · simp [hk]

/-- Maps that answer every look-up alike are equal. -/
@[ext]
theorem ext_get? {m n : KeyMap α} (h : ∀ key, m.get? key = n.get? key) : m = n := by
  have hmem : ∀ e, e ∈ m.entries ↔ e ∈ n.entries := fun e => by
    obtain ⟨key, value⟩ := e
    rw [mem_entries_iff_get?, mem_entries_iff_get?, h]
  obtain ⟨es, hs⟩ := m
  obtain ⟨fs, ht⟩ := n
  simp only at hmem
  have : es = fs := by
    clear h
    induction es generalizing fs with
    | nil =>
        cases fs with
        | nil => rfl
        | cons f fs => simpa using hmem f
    | cons e es ih =>
        cases fs with
        | nil => simpa using hmem e
        | cons f fs =>
            have hp := List.pairwise_cons.1 hs
            have hq := List.pairwise_cons.1 ht
            have hef : e = f := by
              rcases List.mem_cons.1 ((hmem e).1 List.mem_cons_self) with h | h
              · exact h
              · rcases List.mem_cons.1 ((hmem f).2 List.mem_cons_self) with h' | h'
                · exact h'.symm
                · exact absurd (hp.1 f h') (String.lt_asymm (hq.1 e h))
            subst hef
            refine congrArg (e :: ·) (ih hp.2 fs hq.2 fun x => ?_)
            constructor
            · intro hx
              rcases List.mem_cons.1 ((hmem x).1 (List.mem_cons_of_mem _ hx)) with h | h
              · exact absurd (h ▸ hp.1 x hx) (String.lt_irrefl _)
              · exact h
            · intro hx
              rcases List.mem_cons.1 ((hmem x).2 (List.mem_cons_of_mem _ hx)) with h | h
              · exact absurd (h ▸ hq.1 x hx) (String.lt_irrefl _)
              · exact h
  subst this
  rfl

end KeyMap
end RunnerFleet
