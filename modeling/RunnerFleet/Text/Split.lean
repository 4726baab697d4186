/-!
# Parts of a text

The parts of a text between its separators. There is one part more than there are separators; parts
may be empty.

Main results:

- `splitAt_eq_singleton_iff`: a text is its own only part exactly if it has no separator.
- `mem_of_mem_splitAt`: the parts hold characters of the text, and no separators.
-/

namespace RunnerFleet
namespace Text

/-- The parts of a text between the characters that are separators. -/
def splitAt (isSeparator : Char → Bool) : List Char → List (List Char)
  | [] => [[]]
  | c :: rest =>
      if isSeparator c then [] :: splitAt isSeparator rest
      else
        match splitAt isSeparator rest with
        | [] => [[c]]
        | part :: parts => (c :: part) :: parts

/-- Splitting leaves at least one part. -/
theorem splitAt_ne_nil (isSeparator : Char → Bool) (cs : List Char) :
    splitAt isSeparator cs ≠ [] := by
  cases cs with
  | nil => simp [splitAt]
  | cons c rest =>
      simp only [splitAt]
      split
      · simp
      · split <;> simp

/-- Each part is made of characters of the text, and of no separator. -/
theorem mem_of_mem_splitAt {isSeparator : Char → Bool} {cs part : List Char} {c : Char}
    (hp : part ∈ splitAt isSeparator cs) (hc : c ∈ part) : c ∈ cs ∧ isSeparator c = false := by
  induction cs generalizing part with
  | nil => simp_all [splitAt]
  | cons d rest ih =>
      simp only [splitAt] at hp
      split at hp
      · rcases List.mem_cons.1 hp with rfl | hp
        · simp at hc
        · exact ⟨List.mem_cons_of_mem d (ih hp hc).1, (ih hp hc).2⟩
      · rename_i hd
        split at hp
        · simp_all
        · rename_i first parts hs
          rcases List.mem_cons.1 hp with rfl | hp
          · rcases List.mem_cons.1 hc with rfl | hc
            · exact ⟨List.mem_cons_self, by simpa using hd⟩
            · have hf : first ∈ splitAt isSeparator rest := by simp [hs]
              exact ⟨List.mem_cons_of_mem d (ih hf hc).1, (ih hf hc).2⟩
          · have hp : part ∈ splitAt isSeparator rest := by simp [hs, hp]
            exact ⟨List.mem_cons_of_mem d (ih hp hc).1, (ih hp hc).2⟩

/-- A text stays whole exactly when no separator is in it. -/
theorem splitAt_eq_singleton_iff {isSeparator : Char → Bool} {cs : List Char} :
    splitAt isSeparator cs = [cs] ↔ ∀ c ∈ cs, isSeparator c = false := by
  constructor
  · intro h c hc
    have hcs : cs ∈ splitAt isSeparator cs := by simp [h]
    exact (mem_of_mem_splitAt hcs hc).2
  · intro h
    induction cs with
    | nil => rfl
    | cons c rest ih =>
        have hc : isSeparator c = false := h c List.mem_cons_self
        have hr := ih fun d hd => h d (List.mem_cons_of_mem c hd)
        simp [splitAt, hc, hr]

end Text
end RunnerFleet
