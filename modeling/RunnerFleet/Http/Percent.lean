import RunnerFleet.Text.Digits

/-!
# Percent-encoded text

In a URL, a byte may be written as a percent sign and two hexadecimal digits. A percent sign in
front of anything else stands for itself. What is decoded is bytes; they need not be text.

Main results:

- `decodeBytes_encodeByte`: a byte in its written form is read back.
- `encode_eq_self`: text of characters that are all kept is its own encoded form.
-/

namespace RunnerFleet
namespace Http
namespace Percent

/-- The hexadecimal digit with this value, a letter in upper case. -/
def upperDigit (n : Nat) : Char :=
  (Nat.digitChar n).toUpper

/-- The written form of a byte. -/
def encodeByte (b : UInt8) : List Char :=
  ['%', upperDigit (b.toNat / 16), upperDigit (b.toNat % 16)]

/-- The text with every character outside `kept` replaced by the written form of its bytes. -/
def encode (kept : Char → Bool) (cs : List Char) : List Char :=
  cs.flatMap fun c => if kept c then [c] else (String.utf8EncodeChar c).flatMap encodeByte

/-- The bytes that a text stands for. -/
def decodeBytes : List Char → List UInt8
  | [] => []
  | '%' :: a :: b :: rest =>
      match Text.hexDigit? a, Text.hexDigit? b with
      | some high, some low => (16 * high + low).toUInt8 :: decodeBytes rest
      | _, _ => '%'.toUInt8 :: decodeBytes (a :: b :: rest)
  | c :: rest => String.utf8EncodeChar c ++ decodeBytes rest

/-- The text that a text stands for, if the bytes are text. -/
def decode? (cs : List Char) : Option String :=
  String.fromUTF8? ⟨(decodeBytes cs).toArray⟩

/-- The digits an escape is written with are read back. -/
theorem hexDigit?_upperDigit : ∀ n : Fin 16, Text.hexDigit? (upperDigit n) = some n.val := by
  decide

/-- An escaped byte decodes to itself, whatever follows it. -/
@[simp]
theorem decodeBytes_encodeByte (b : UInt8) (rest : List Char) :
    decodeBytes (encodeByte b ++ rest) = b :: decodeBytes rest := by
  have hb : b.toNat < 256 := b.toNat_lt
  have high := hexDigit?_upperDigit ⟨b.toNat / 16, by omega⟩
  have low := hexDigit?_upperDigit ⟨b.toNat % 16, by omega⟩
  have byte : (16 * (b.toNat / 16) + b.toNat % 16).toUInt8 = b := by
    rw [Nat.div_add_mod]
    exact UInt8.ofNat_toNat
  simp only [encodeByte, List.cons_append, List.nil_append, decodeBytes, high, low, byte]

/-- A text of characters that need no escape stands for itself. -/
theorem encode_eq_self {kept : Char → Bool} {cs : List Char} (h : ∀ c ∈ cs, kept c = true) :
    encode kept cs = cs := by
  induction cs with
  | nil => rfl
  | cons c rest ih =>
      have hc : kept c = true := h c List.mem_cons_self
      have hr := ih fun d hd => h d (List.mem_cons_of_mem c hd)
      unfold encode at hr ⊢
      simp only [List.flatMap_cons, hc, if_true, hr, List.singleton_append]

end Percent
end Http
end RunnerFleet
