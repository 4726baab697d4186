import RunnerFleet.Text.Blank
import RunnerFleet.Text.Decimal

/-!
# Reading numbers that were written

A whole number that was written in decimal is read back as itself, also from between blanks that are
trimmed, provided that it fits into 64 bits.

Main results:

- `spanDigits_append`, `values_toDigits_cases`: what is read of a row of digits.
- `toInt?_toString`: what was written is read back.
- `toInt64?_trimBlanks_toString`: a number is read back exactly if it fits.
-/

namespace RunnerFleet
namespace Text

/-! ## Digits -/

/-- A digit is worth its distance from zero. -/
theorem digit?_of_isDigit {c : Char} (h : c.isDigit = true) :
    digit? c = some (c.toNat - '0'.toNat) := by
  have hbounds : '0' ≤ c ∧ c ≤ '9' := by
    simpa [Char.isDigit, Char.le_def, UInt32.le_iff_toNat_le] using h
  rw [digit?, if_pos hbounds]

/-- What the digits of a text are worth. -/
def values (cs : List Char) : List Nat :=
  cs.map fun c => c.toNat - '0'.toNat

/-- A row of digits is read to its end, if no digit follows. -/
theorem spanDigits_append {cs rest : List Char} (h : ∀ c ∈ cs, c.isDigit = true)
    (hrest : rest.head?.bind digit? = none) : spanDigits (cs ++ rest) = (values cs, rest) := by
  induction cs with
  | nil =>
      cases rest with
      | nil => rfl
      | cons c rest =>
          have hstop : digit? c = none := hrest
          simp [spanDigits, hstop, values]
  | cons c cs ih =>
      have hcs := ih fun d hd => h d (List.mem_cons_of_mem _ hd)
      simp [spanDigits, digit?_of_isDigit (h c List.mem_cons_self), hcs, values]

theorem spanDigits_of_isDigit {cs : List Char} (h : ∀ c ∈ cs, c.isDigit = true) :
    spanDigits cs = (values cs, []) := by
  have happend := spanDigits_append h (show ([] : List Char).head?.bind digit? = none from rfl)
  rwa [List.append_nil] at happend

theorem isDigit_of_mem_toDigits {n : Nat} {c : Char} (h : c ∈ Nat.toDigits 10 n) :
    c.isDigit = true :=
  Nat.isDigit_of_mem_toDigits (by decide) (by decide) h

/-- There is a first digit. -/
theorem toDigits_eq_cons (n : Nat) : ∃ c cs, Nat.toDigits 10 n = c :: cs ∧ c.isDigit = true := by
  have hne : Nat.toDigits 10 n ≠ [] := by simp
  obtain ⟨c, cs, hcons⟩ := List.exists_cons_of_ne_nil hne
  exact ⟨c, cs, hcons, isDigit_of_mem_toDigits (hcons ▸ List.mem_cons_self)⟩

/-- The digits of a number are worth the number. -/
@[simp]
theorem ofDigits_toDigits (n : Nat) : ofDigits 10 (values (Nat.toDigits 10 n)) = n := by
  rw [ofDigits, values, List.foldl_map]
  exact Nat.ofDigitChars_ten_toDigits

/-- Zeros in front of a number change nothing. -/
@[simp]
theorem ofDigits_zeros (k : Nat) (digits : List Nat) :
    ofDigits 10 (List.replicate k 0 ++ digits) = ofDigits 10 digits := by
  induction k with
  | zero => simp
  | succ k ih => simpa [ofDigits, List.replicate_succ] using ih

/-- Zeros behind a number multiply it by powers of ten. -/
theorem ofDigits_append_zeros (digits : List Nat) (k : Nat) :
    ofDigits 10 (digits ++ List.replicate k 0) = ofDigits 10 digits * 10 ^ k := by
  induction k with
  | zero => simp
  | succ k ih =>
      rw [List.replicate_succ', ← List.append_assoc, ofDigits_append_singleton, ih, Nat.pow_succ,
        Nat.mul_comm 10, Nat.mul_assoc, Nat.add_zero]

/-- A number is written with digits of which the first one is not zero, unless it is zero. -/
theorem values_toDigits_cases (n : Nat) :
    (n = 0 ∧ values (Nat.toDigits 10 n) = [0]) ∨
      (0 < n ∧ ∃ d rest, values (Nat.toDigits 10 n) = d :: rest ∧ d ≠ 0) := by
  induction n using Nat.strongRecOn with
  | ind n ih =>
      by_cases hsmall : n < 10
      · have hvalue : values (Nat.toDigits 10 n) = [n] := by
          simp [Nat.toDigits_of_lt_base hsmall, values, Nat.toNat_digitChar_of_lt_ten hsmall]
        rcases Nat.eq_zero_or_pos n with rfl | hpos
        · exact Or.inl ⟨rfl, hvalue⟩
        · exact Or.inr ⟨hpos, n, [], hvalue, by omega⟩
      · have hdigits := Nat.toDigits_of_base_le (b := 10) (n := n) (by decide) (by omega)
        rcases ih (n / 10) (by omega) with ⟨hzero, -⟩ | ⟨-, d, rest, hrest, hd⟩
        · omega
        · refine Or.inr ⟨by omega, d, rest ++ values [(n % 10).digitChar], ?_, hd⟩
          rw [hdigits]
          simp only [values, List.map_append] at hrest ⊢
          rw [hrest, List.cons_append]

/-- What was written as a natural number is read back. -/
@[simp]
theorem toNat?_toDigits (n : Nat) : toNat? (Nat.toDigits 10 n) = some n := by
  have hdigit : ∀ c ∈ Nat.toDigits 10 n, c.isDigit = true := fun c hc => isDigit_of_mem_toDigits hc
  have hspan := spanDigits_of_isDigit hdigit
  have hvalue := ofDigits_toDigits n
  have hne : values (Nat.toDigits 10 n) ≠ [] := by
    simp [values]
  obtain ⟨d, rest, hdigits⟩ := List.exists_cons_of_ne_nil hne
  rw [hdigits] at hspan hvalue
  rw [toNat?, hspan]
  exact congrArg some hvalue

/-- A number is below the power of ten with as many zeros as it has digits. -/
theorem lt_pow_length_toDigits (n : Nat) : n < 10 ^ (Nat.toDigits 10 n).length :=
  (Nat.length_toDigits_le_iff (by decide) Nat.length_toDigits_pos).1 (Nat.le_refl _)

/-- A positive number is not below the power of ten with one digit less. -/
theorem pow_length_toDigits_le {n : Nat} (hpos : 0 < n) :
    10 ^ ((Nat.toDigits 10 n).length - 1) ≤ n := by
  rcases Nat.eq_zero_or_pos ((Nat.toDigits 10 n).length - 1) with hone | hmany
  · rw [hone]
    exact hpos
  · have hlength := Nat.length_toDigits_le_iff (b := 10) (n := n) (by decide) hmany
    omega

/-! ## Signs -/

/-- A whole number is written as digits, behind a sign if it is negative. -/
theorem toList_toString_cases (n : Int) :
    (∃ m : Nat, n = m ∧ (toString n).toList = Nat.toDigits 10 m) ∨
      ∃ m : Nat, 0 < m ∧ n = -m ∧ (toString n).toList = '-' :: Nat.toDigits 10 m := by
  rw [Int.toString_eq_repr, Int.repr_eq_if]
  split
  · exact Or.inl ⟨n.toNat, by omega, Nat.toList_repr⟩
  · refine Or.inr ⟨(-n).toNat, by omega, by omega, ?_⟩
    rw [String.toList_append, Nat.toList_repr]
    rfl

/-- What was written as a whole number is read back. -/
@[simp]
theorem toInt?_toString (n : Int) : toInt? (toString n).toList = some n := by
  rcases toList_toString_cases n with ⟨m, rfl, htext⟩ | ⟨m, -, rfl, htext⟩
  · obtain ⟨c, cs, hcons, hdigit⟩ := toDigits_eq_cons m
    have hread : toNat? (c :: cs) = some m := hcons ▸ toNat?_toDigits m
    rw [htext, hcons]
    unfold toInt?
    split
    · rename_i heq
      obtain ⟨rfl, -⟩ := List.cons.inj heq
      exact absurd hdigit (by decide)
    · rename_i heq
      obtain ⟨rfl, -⟩ := List.cons.inj heq
      exact absurd hdigit (by decide)
    · simp [hread]
  · rw [htext]
    change (toNat? (Nat.toDigits 10 m)).map (fun n => -(n : Int)) = some (-(m : Int))
    rw [toNat?_toDigits]
    rfl

/-! ## Blanks -/

/-- A text without blanks stays as it is when it is trimmed. -/
theorem trimBlanks_of_not_blank {cs : List Char} (h : ∀ c ∈ cs, isBlank c = false) :
    trimBlanks cs = cs := by
  have hkeep : ∀ ds : List Char, (∀ c ∈ ds, isBlank c = false) → ds.dropWhile isBlank = ds := by
    intro ds hds
    cases ds with
    | nil => rfl
    | cons c rest => rw [List.dropWhile_cons, hds c List.mem_cons_self, if_neg Bool.false_ne_true]
  rw [trimBlanks, trimStart, hkeep cs h, trimEnd,
    hkeep cs.reverse fun c hc => h c (List.mem_reverse.1 hc), List.reverse_reverse]

/-- A digit is no blank. -/
theorem not_isBlank_of_isDigit {c : Char} (h : c.isDigit = true) : isBlank c = false := by
  have hbounds : 48 ≤ c.toNat ∧ c.toNat ≤ 57 := by
    simpa [Char.isDigit, UInt32.le_iff_toNat_le] using h
  simp only [isBlank, Bool.or_eq_false_iff, Bool.and_eq_false_iff, decide_eq_false_iff_not,
    beq_eq_false_iff_ne]
  omega

/-- A written number has no blanks. -/
theorem not_isBlank_of_mem_toString {n : Int} {c : Char} (h : c ∈ (toString n).toList) :
    isBlank c = false := by
  rcases toList_toString_cases n with ⟨m, -, htext⟩ | ⟨m, -, -, htext⟩
  · rw [htext] at h
    exact not_isBlank_of_isDigit (isDigit_of_mem_toDigits h)
  · rw [htext] at h
    rcases List.mem_cons.1 h with rfl | h
    · decide
    · exact not_isBlank_of_isDigit (isDigit_of_mem_toDigits h)

/-- A written number is read back from between blanks exactly if it fits into 64 bits. -/
theorem toInt64?_trimBlanks_toString (n : Int) :
    toInt64? (trimBlanks (toString n).toList) =
      if -2 ^ 63 ≤ n ∧ n < 2 ^ 63 then some n else none := by
  rw [trimBlanks_of_not_blank fun c hc => not_isBlank_of_mem_toString hc, toInt64?, toInt?_toString]
  simp [Option.filter_some]

end Text
end RunnerFleet
