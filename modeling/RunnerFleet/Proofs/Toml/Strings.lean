import RunnerFleet.Toml.Quoted

/-!
# Strings that were written

A string is read back from its quotation, whichever characters it has and whichever style was
chosen for it.  Inside one mark on each side every character is read by itself.  Inside three marks
the reader takes runs of marks together, so what it makes of a mark depends on the marks in front of
it; the relation `Body` goes along a written body and counts them.

Main results:

- `escapeChar_cases`: how a character is written, and what is read of that.
- `lineBody_escaped`, `lineBody_literal`: bodies on one line.
- `Body.read`: a body between three marks is read back.
- `anyString_quote`: a string is read back from its quotation.
-/

namespace RunnerFleet
namespace Toml

/-! ## Characters -/

/-- A character that needs no escape, and breaks no line, can stand in a string as it is. -/
theorem isPlain_of_not_control {c : Char} (hcontrol : isControl c = false) (hbreak : c ≠ '\n') :
    isPlain c = true := by
  simp only [isControl, Bool.or_eq_false_iff, Bool.and_eq_false_iff, decide_eq_false_iff_not,
    beq_eq_false_iff_ne, bne_eq_false_iff_eq, hbreak, or_false] at hcontrol
  obtain ⟨hsmall | htab, hdelete⟩ := hcontrol
  · simp only [isPlain, Bool.or_eq_true, Bool.and_eq_true, decide_eq_true_eq, bne_iff_ne]
    exact Or.inr ⟨Nat.not_lt.1 hsmall, hdelete⟩
  · rw [htab]
    decide

/-- The hexadecimal digits of a control stand for it. -/
theorem ofHexDigits?_control {n : Nat} (hsmall : n < 128) :
    Text.ofHexDigits? ['0', '0', upperHex (n / 16), upperHex (n % 16)] = some n := by
  have hall : ∀ n < 128,
      Text.ofHexDigits? ['0', '0', upperHex (n / 16), upperHex (n % 16)] = some n := by
    decide
  exact hall n hsmall

/-- The number of a character stands for it. -/
theorem scalar?_toNat (c : Char) : scalar? c.toNat = some c := by
  have hvalid : c.toNat.isValidChar := c.valid
  rw [scalar?, if_pos hvalid, Char.ofNat_toNat]

/-- Characters that are read by themselves in a string with escapes. -/
structure IsVerbatim (c : Char) : Prop where
  plain : isPlain c = true
  ne_quote : c ≠ '"'
  ne_backslash : c ≠ '\\'
  ne_newline : c ≠ '\n'
  ne_return : c ≠ '\r'

/-- A character is written as it is, or with a backslash and text that is read back. -/
theorem escapeChar_cases (c : Char) :
    escapeChar c = [c] ∧ IsVerbatim c ∨
      ∃ mark behind, escapeChar c = '\\' :: mark :: behind ∧ isSpace mark = false ∧
        mark ≠ '\n' ∧ mark ≠ '\r' ∧
        ∀ rest, escape (mark :: behind ++ rest) = some (c, rest) := by
  unfold escapeChar
  split
  case h_8 _ hback htab hnewline hform hreturn hquote hslash =>
    split
    · rename_i hcontrol
      have hsmall : c.toNat < 128 := by
        simp only [isControl, Bool.or_eq_true, Bool.and_eq_true, decide_eq_true_eq,
          beq_iff_eq] at hcontrol
        omega
      refine Or.inr ⟨_, _, rfl, by decide, by decide, by decide, fun rest => ?_⟩
      simp only [List.cons_append, List.nil_append, escape, ofHexDigits?_control hsmall,
        Option.bind_eq_bind, Option.bind_some, scalar?_toNat]
      rfl
    · rename_i hcontrol
      rw [Bool.not_eq_true] at hcontrol
      exact Or.inl ⟨rfl, isPlain_of_not_control hcontrol hnewline, hquote, hslash, hnewline,
        hreturn⟩
  all_goals exact Or.inr ⟨_, [], rfl, by decide, by decide, by decide, fun rest => rfl⟩

/-! ## Bodies on one line -/

/-- A body with escapes is read up to the mark behind it. -/
theorem lineBody_escaped {cs : List Char} {fuel : Nat} (rest : List Char)
    (hfuel : (cs.flatMap escapeChar).length < fuel) :
    lineBody '"' true fuel (cs.flatMap escapeChar ++ '"' :: rest) = some (cs, rest) := by
  induction cs generalizing fuel with
  | nil =>
      obtain ⟨fuel, rfl⟩ := Nat.exists_eq_add_of_lt hfuel
      simp [lineBody]
  | cons c cs ih =>
      obtain ⟨fuel, rfl⟩ : ∃ n, fuel = n + 1 := ⟨fuel - 1, by omega⟩
      rw [List.flatMap_cons, List.length_append] at hfuel
      rcases escapeChar_cases c with ⟨hself, hplain⟩ | ⟨mark, behind, hescaped, -, -, -, hread⟩
      · rw [hself] at hfuel
        have hrest := ih (show (cs.flatMap escapeChar).length < fuel by
          simp only [List.length_singleton] at hfuel; omega)
        rw [List.flatMap_cons, hself]
        simp [lineBody, hplain.ne_quote, hplain.ne_backslash, hplain.plain, hrest]
      · rw [hescaped] at hfuel
        have hrest := ih (show (cs.flatMap escapeChar).length < fuel by
          simp only [List.length_cons] at hfuel; omega)
        rw [List.flatMap_cons, hescaped]
        simp only [List.cons_append, List.append_assoc] at hread ⊢
        simp [lineBody, hread, hrest]

/-- A body without escapes is read up to the mark behind it. -/
theorem lineBody_literal {mark : Char} {cs : List Char} {fuel : Nat} (rest : List Char)
    (hfuel : cs.length < fuel) (hplain : ∀ c ∈ cs, isPlain c = true ∧ c ≠ mark) :
    lineBody mark false fuel (cs ++ mark :: rest) = some (cs, rest) := by
  induction cs generalizing fuel with
  | nil =>
      obtain ⟨fuel, rfl⟩ := Nat.exists_eq_add_of_lt hfuel
      simp [lineBody]
  | cons c cs ih =>
      obtain ⟨fuel, rfl⟩ : ∃ n, fuel = n + 1 := ⟨fuel - 1, by omega⟩
      obtain ⟨⟨hc, hmark⟩, hcs⟩ := List.forall_mem_cons.1 hplain
      have hrest := ih (show cs.length < fuel by simpa using hfuel) hcs
      simp [lineBody, hc, hmark, hrest]

/-! ## Bodies of several lines -/

/-- What `front` is read as between three marks, whatever stands behind it. -/
structure Emits (mark : Char) (escapes : Bool) (front : List Char) (c : Char) : Prop where
  read : ∀ fuel rest, blockBody mark escapes (fuel + 1) (front ++ rest) =
    (blockBody mark escapes fuel rest).map fun (body, rest) => (c :: body, rest)
  front_ne : front ≠ []
  ne_mark : front.head? ≠ some mark
  /-- Only a break is written as a break. -/
  unbroken : c ≠ '\n' → ∀ rest, lineBreak (front ++ rest) = none

theorem emits_newline {mark : Char} {escapes : Bool} (hmark : mark ≠ '\n') :
    Emits mark escapes ['\n'] '\n' where
  read := by
    intro fuel rest
    simp only [List.singleton_append, blockBody, hmark.symm, if_false, lineBreak]
    cases escapes <;> cases blockBody mark _ fuel rest <;> rfl
  front_ne := by simp
  ne_mark := by simpa using hmark.symm
  unbroken := fun h => absurd rfl h

theorem lineBreak_eq_none {c : Char} (rest : List Char) (hnewline : c ≠ '\n')
    (hreturn : c ≠ '\r') : lineBreak (c :: rest) = none := by
  unfold lineBreak
  split
  · rename_i heq
    exact absurd (List.cons.inj heq).1 hnewline
  · rename_i heq
    exact absurd (List.cons.inj heq).1 hreturn
  · rfl

theorem emits_self {mark : Char} {escapes : Bool} {c : Char} (hmark : c ≠ mark)
    (hplain : isPlain c = true) (hescape : escapes = true → c ≠ '\\') (hnewline : c ≠ '\n')
    (hreturn : c ≠ '\r') : Emits mark escapes [c] c where
  read := by
    intro fuel rest
    have hself : ¬(escapes && c == '\\') = true := by
      simpa using hescape
    simp only [List.singleton_append, blockBody, hmark, if_false, hself,
      lineBreak_eq_none rest hnewline hreturn, hplain, if_true]
    cases blockBody mark escapes fuel rest <;> rfl
  front_ne := by simp
  ne_mark := by simpa using hmark
  unbroken := fun _ rest => lineBreak_eq_none rest hnewline hreturn

theorem emits_escape {c mark : Char} {behind : List Char} (hspace : isSpace mark = false)
    (hnewline : mark ≠ '\n') (hreturn : mark ≠ '\r')
    (hread : ∀ rest, escape (mark :: behind ++ rest) = some (c, rest)) :
    Emits '"' true ('\\' :: mark :: behind) c where
  read := by
    intro fuel rest
    have hbreak : lineBreak ((mark :: (behind ++ rest)).dropWhile isSpace) = none := by
      rw [List.dropWhile_cons_of_neg (by simp [hspace])]
      exact lineBreak_eq_none _ hnewline hreturn
    have hescape := hread rest
    rw [List.cons_append] at hescape
    simp only [List.cons_append, blockBody, hbreak, hescape, Bool.true_and, beq_self_eq_true,
      if_true]
    rw [if_neg (by decide)]
    cases blockBody '"' true fuel rest <;> rfl
  front_ne := by simp
  ne_mark := by simp
  unbroken := fun _ rest => lineBreak_eq_none _ (by decide) (by decide)

/-- `written` stands for `text` between three marks, if `run` marks were written just before. -/
inductive Body (mark : Char) (escapes : Bool) : Nat → List Char → List Char → Prop where
  | nil {run : Nat} (hrun : run ≤ 2) : Body mark escapes run [] []
  | mark {run : Nat} {written text : List Char} (hrun : run < 2)
      (h : Body mark escapes (run + 1) written text) :
      Body mark escapes run (mark :: written) (mark :: text)
  | step {run : Nat} {front written text : List Char} {c : Char} (hrun : run ≤ 2)
      (hfront : Emits mark escapes front c) (h : Body mark escapes 0 written text) :
      Body mark escapes run (front ++ written) (c :: text)

/-- A run of marks ends where another character stands. -/
theorem takeWhile_marks {mark : Char} {rest : List Char} (n : Nat)
    (hrest : rest.head? ≠ some mark) :
    (List.replicate n mark ++ rest).takeWhile (· == mark) = List.replicate n mark := by
  induction n with
  | zero =>
      cases rest with
      | nil => rfl
      | cons c rest =>
          have hne : c ≠ mark := by simpa using hrest
          simp [hne]
  | succ n ih => simp [List.replicate_succ, ih]

/-- A run of marks is told by its length. -/
theorem blockBody_run {mark : Char} {escapes : Bool} {rest : List Char} {n fuel : Nat}
    (hpos : 0 < n) (hrest : rest.head? ≠ some mark) :
    blockBody mark escapes (fuel + 1) (List.replicate n mark ++ rest) =
      if n < 3 then (blockBody mark escapes fuel rest).map fun (body, rest) =>
        (List.replicate n mark ++ body, rest)
      else if n ≤ 5 then some (List.replicate (n - 3) mark, rest)
      else none := by
  obtain ⟨m, rfl⟩ : ∃ m, n = m + 1 := ⟨n - 1, by omega⟩
  have hrun := takeWhile_marks (m + 1) hrest
  have hdrop : (List.replicate (m + 1) mark ++ rest).drop (m + 1) = rest := by simp
  rw [List.replicate_succ, List.cons_append] at hrun hdrop ⊢
  simp only [blockBody, if_true, hrun, List.length_cons, List.length_replicate, hdrop,
    List.replicate_succ]
  split
  · cases blockBody mark escapes fuel rest <;> rfl
  · rfl

/-- A body is read up to the marks behind it. -/
theorem Body.read {mark : Char} {escapes : Bool} {run : Nat} {written text rest : List Char}
    (h : Body mark escapes run written text) (hrest : rest.head? ≠ some mark) {fuel : Nat}
    (hfuel : run + written.length < fuel) :
    blockBody mark escapes fuel
        (List.replicate run mark ++ (written ++ (List.replicate 3 mark ++ rest))) =
      some (List.replicate run mark ++ text, rest) := by
  induction h generalizing fuel with
  | nil hrun =>
      obtain ⟨fuel, rfl⟩ : ∃ n, fuel = n + 1 := ⟨fuel - 1, by omega⟩
      rw [List.nil_append, ← List.append_assoc, List.replicate_append_replicate,
        blockBody_run (by omega) hrest, if_neg (by omega), if_pos (by omega), Nat.add_sub_cancel,
        List.append_nil]
  | @mark run written text hrun h ih =>
      have hread := ih (show run + 1 + written.length < fuel by
        rw [List.length_cons] at hfuel; omega)
      rw [List.replicate_succ', List.append_assoc, List.append_assoc] at hread
      exact hread
  | @step run front written text c hrun hfront h ih =>
      have hlength := List.length_pos_iff.2 hfront.front_ne
      rw [List.length_append] at hfuel
      rw [List.append_assoc]
      rcases Nat.eq_zero_or_pos run with rfl | hpos
      · obtain ⟨fuel, rfl⟩ : ∃ n, fuel = n + 1 := ⟨fuel - 1, by omega⟩
        have hread := ih (show 0 + written.length < fuel by omega)
        simp only [List.replicate_zero, List.nil_append] at hread ⊢
        rw [hfront.read, hread]
        rfl
      · obtain ⟨fuel, rfl⟩ : ∃ n, fuel = n + 2 := ⟨fuel - 2, by omega⟩
        have hread := ih (show 0 + written.length < fuel by omega)
        simp only [List.replicate_zero, List.nil_append] at hread
        have hhead : (front ++ (written ++ (List.replicate 3 mark ++ rest))).head? ≠ some mark := by
          obtain ⟨c, cs, hcons⟩ := List.exists_cons_of_ne_nil hfront.front_ne
          have hmark := hfront.ne_mark
          rw [hcons] at hmark ⊢
          exact hmark
        rw [blockBody_run hpos hhead, if_pos (by omega), hfront.read, hread]
        rfl

/-- A body without breaks does not start with one. -/
theorem Body.unbroken {mark : Char} {escapes : Bool} {run : Nat} {written text : List Char}
    (h : Body mark escapes run written text) (hnewline : mark ≠ '\n') (hreturn : mark ≠ '\r')
    (htext : '\n' ∉ text) (rest : List Char) :
    lineBreak (written ++ (List.replicate 3 mark ++ rest)) = none := by
  cases h with
  | nil => exact lineBreak_eq_none _ hnewline hreturn
  | mark => exact lineBreak_eq_none _ hnewline hreturn
  | step hrun hfront h =>
      rw [List.append_assoc]
      exact hfront.unbroken (fun heq => htext (heq ▸ List.mem_cons_self)) _

/-- A body with escapes stands for its text. -/
theorem body_blockEscape (cs : List Char) {run : Nat} (hrun : run ≤ 2) :
    Body '"' true run (blockEscape run cs) cs := by
  induction cs generalizing run with
  | nil => exact .nil hrun
  | cons c cs ih =>
      unfold blockEscape
      split
      · rename_i heq
        rw [heq]
        exact .step hrun (emits_newline (by decide)) (ih (by omega))
      · split
        · rename_i heq
          rw [heq]
          split
          · exact .mark (by omega) (ih (by omega))
          · have hfront : Emits '"' true ['\\', '"'] '"' :=
              emits_escape (by decide) (by decide) (by decide) fun _ => rfl
            exact .step hrun hfront (ih (by omega))
        · rcases escapeChar_cases c with
            ⟨hself, hplain⟩ | ⟨mark, behind, hescaped, hspace, hnewline, hreturn, hread⟩
          · rw [hself]
            exact .step hrun (emits_self hplain.ne_quote hplain.plain
              (fun _ => hplain.ne_backslash) hplain.ne_newline hplain.ne_return) (ih (by omega))
          · rw [hescaped]
            exact .step hrun (emits_escape hspace hnewline hreturn hread) (ih (by omega))

theorem le_longestRun (c : Char) (run : Nat) (cs : List Char) : run ≤ longestRun c run cs := by
  induction cs generalizing run with
  | nil => exact Nat.le_refl _
  | cons d cs ih =>
      unfold longestRun
      split
      · exact Nat.le_of_succ_le (ih (run + 1))
      · exact Nat.le_max_left _ _

/-- A body without escapes stands for itself, if it has no run of marks that would close it. -/
theorem body_literal {cs : List Char} {run : Nat} (hcontrol : ∀ c ∈ cs, isControl c = false)
    (hruns : longestRun '\'' run cs ≤ 2) : Body '\'' false run cs cs := by
  induction cs generalizing run with
  | nil => exact .nil hruns
  | cons c cs ih =>
      obtain ⟨hc, hcs⟩ := List.forall_mem_cons.1 hcontrol
      have hrun := Nat.le_trans (le_longestRun _ _ _) hruns
      unfold longestRun at hruns
      split at hruns
      · rename_i heq
        rw [heq]
        exact .mark (Nat.le_trans (le_longestRun _ _ _) hruns) (ih hcs hruns)
      · rename_i hmark
        have hbody := ih hcs (Nat.le_trans (Nat.le_max_right _ _) hruns)
        by_cases hnewline : c = '\n'
        · rw [hnewline]
          have hfront : Emits '\'' false ['\n'] '\n' := emits_newline (by decide)
          exact .step hrun hfront hbody
        · have hreturn : c ≠ '\r' := by
            rintro rfl
            exact absurd hc (by decide)
          have hfront : Emits '\'' false [c] c :=
            emits_self hmark (isPlain_of_not_control hc hnewline) (fun h => absurd h (by decide))
              hnewline hreturn
          exact .step hrun hfront hbody

/-! ## Quotations -/

/-- A style suits a text if the text can be written in it. -/
def Style.Suits : Style → List Char → Prop
  | basic _, _ => True
  | literal false, cs => ∀ c ∈ cs, isPlain c = true ∧ c ≠ '\''
  | literal true, cs => (∀ c ∈ cs, isControl c = false) ∧ longestRun '\'' 0 cs ≤ 2

/-- The style of a value suits it. -/
theorem styleOf_suits (cs : List Char) : (styleOf cs).Suits cs := by
  simp only [styleOf]
  split
  · trivial
  · split
    · rename_i h
      simp only [Bool.and_eq_true, Bool.not_eq_true', List.any_eq_false, Bool.not_eq_true,
        List.contains_eq_mem, decide_eq_false_iff_not] at h
      obtain ⟨⟨hcontrol, hmark⟩, hbreak⟩ := h
      intro c hc
      exact ⟨isPlain_of_not_control (hcontrol c hc) fun heq => hbreak (heq ▸ hc),
        fun heq => hmark (heq ▸ hc)⟩
    · split
      · trivial
      · split
        · rename_i h
          simpa [Style.Suits] using h
        · trivial

/-- The style of a name suits it, and takes one line. -/
theorem nameStyleOf_cases (cs : List Char) :
    nameStyleOf cs = .basic false ∨
      nameStyleOf cs = .literal false ∧ Style.Suits (.literal false) cs := by
  simp only [nameStyleOf]
  split
  · exact Or.inl rfl
  · split
    · rename_i h
      simp only [Bool.and_eq_true, Bool.not_eq_true', List.any_eq_false, Bool.or_eq_true,
        beq_iff_eq, not_or, Bool.not_eq_true, List.contains_eq_mem,
        decide_eq_false_iff_not] at h
      obtain ⟨hcontrol, hmark⟩ := h
      refine Or.inr ⟨rfl, fun c hc => ?_⟩
      exact ⟨isPlain_of_not_control (hcontrol c hc).1 (hcontrol c hc).2,
        fun heq => hmark (heq ▸ hc)⟩
    · exact Or.inl rfl

/-- What is written between quotation marks on one line is read back. -/
theorem lineString_basic (cs rest : List Char) :
    lineString (styled (.basic false) cs ++ rest) = some (String.ofList cs, rest) := by
  simp only [styled, List.cons_append, List.append_assoc, List.nil_append, lineString]
  rw [lineBody_escaped rest (by simp only [List.length_append]; omega)]
  rfl

/-- What is written between apostrophes on one line is read back. -/
theorem lineString_literal {cs : List Char} (hsuits : Style.Suits (.literal false) cs)
    (rest : List Char) :
    lineString (styled (.literal false) cs ++ rest) = some (String.ofList cs, rest) := by
  simp only [styled, List.cons_append, List.append_assoc, List.nil_append, lineString]
  rw [lineBody_literal rest (by simp only [List.length_append]; omega) hsuits]
  rfl

/-- One mark in front of a text that does not go on with two more opens a line. -/
theorem anyString_line {mark : Char} {written rest : List Char}
    (hwritten : written.head? ≠ some mark) (hrest : rest.head? ≠ some mark) :
    anyString (mark :: (written ++ mark :: rest)) =
      lineString (mark :: (written ++ mark :: rest)) := by
  have hmarks : ∀ tail, written ++ mark :: rest ≠ mark :: mark :: tail := by
    intro tail heq
    cases written with
    | nil =>
        obtain ⟨-, htail⟩ := List.cons.inj heq
        exact hrest (by rw [htail]; rfl)
    | cons c written => exact hwritten (congrArg some (List.cons.inj heq).1)
  simp only [anyString]
  split
  · rename_i heq
    obtain ⟨rfl, htail⟩ := List.cons.inj heq
    exact absurd htail (hmarks _)
  · rename_i heq
    obtain ⟨rfl, htail⟩ := List.cons.inj heq
    exact absurd htail (hmarks _)
  · rfl

/-- A break in front of a text with breaks is dropped. -/
theorem dropBreak_opening {text written : List Char}
    (h : '\n' ∉ text → lineBreak written = none) :
    dropBreak ((if text.contains '\n' then ['\n'] else []) ++ written) = written := by
  split
  · rfl
  · rename_i hbreak
    rw [List.nil_append, dropBreak, h (by simpa using hbreak)]
    rfl

/-- What is written between three marks is read back. -/
theorem blockBody_dropBreak {mark : Char} {escapes : Bool} {written text rest : List Char}
    (h : Body mark escapes 0 written text) (hnewline : mark ≠ '\n') (hreturn : mark ≠ '\r')
    (hrest : rest.head? ≠ some mark) :
    blockBody mark escapes
        (((if text.contains '\n' then ['\n'] else []) ++
          (written ++ (List.replicate 3 mark ++ rest))).length + 1)
        (dropBreak ((if text.contains '\n' then ['\n'] else []) ++
          (written ++ (List.replicate 3 mark ++ rest)))) = some (text, rest) := by
  rw [dropBreak_opening fun htext => h.unbroken hnewline hreturn htext rest]
  exact h.read hrest (by simp only [List.length_append]; omega)

/-- What is written with escapes does not start with a quotation mark. -/
theorem head?_flatMap_escapeChar (cs : List Char) :
    (cs.flatMap escapeChar).head? ≠ some '"' := by
  cases cs with
  | nil => simp
  | cons c cs =>
      rcases escapeChar_cases c with ⟨hself, hplain⟩ | ⟨mark, behind, hescaped, -⟩
      · simpa [hself] using hplain.ne_quote
      · simp [hescaped]

/-- A string is read back from its quotation. -/
theorem anyString_quote (s : String) (rest : List Char) (hquote : rest.head? ≠ some '"')
    (happostrophe : rest.head? ≠ some '\'') : anyString (quote s ++ rest) = some (s, rest) := by
  have hsuits := styleOf_suits s.toList
  have hself : String.ofList s.toList = s := String.ofList_toList
  unfold quote
  generalize s.toList = cs at hsuits hself ⊢
  subst hself
  generalize styleOf cs = style at hsuits ⊢
  match style, hsuits with
  | .basic false, _ =>
      have hline := lineString_basic cs rest
      simp only [styled, List.cons_append, List.append_assoc, List.nil_append] at hline ⊢
      rw [anyString_line (head?_flatMap_escapeChar cs) hquote, hline]
  | .literal false, hsuits =>
      have hhead : cs.head? ≠ some '\'' := by
        intro hmark
        exact (hsuits _ (List.mem_of_mem_head? hmark)).2 rfl
      have hline := lineString_literal hsuits rest
      simp only [styled, List.cons_append, List.append_assoc, List.nil_append] at hline ⊢
      rw [anyString_line hhead happostrophe, hline]
  | .basic true, _ =>
      have hblock := blockBody_dropBreak (body_blockEscape cs (Nat.zero_le 2))
        (by decide) (by decide) hquote
      simp only [styled, List.replicate_succ, List.replicate_zero, List.cons_append,
        List.append_assoc, List.nil_append] at hblock ⊢
      simp only [anyString, hblock]
      rfl
  | .literal true, hsuits =>
      have hblock := blockBody_dropBreak (body_literal hsuits.1 hsuits.2)
        (by decide) (by decide) happostrophe
      simp only [styled, List.replicate_succ, List.replicate_zero, List.cons_append,
        List.append_assoc, List.nil_append] at hblock ⊢
      simp only [anyString, hblock]
      rfl

end Toml
end RunnerFleet
