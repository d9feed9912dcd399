/-!
# Bytes as text

Reading bytes as UTF-8 text, strictly or with a replacement character for each maximal
part that is not UTF-8.

* `decode?` : the text, if the bytes are UTF-8;
* `decodeLossy` : always a text; every maximal ill-formed part becomes U+FFFD.
-/

namespace EmbeddedSolidity.Text

/-- The text that the bytes encode, if any. -/
def decode? (bytes : ByteArray) : Option String :=
  String.fromUTF8? bytes

/-- The character that stands for bytes that are not UTF-8. -/
def replacement : Char :=
  '\ufffd'

/-- The byte continues a character. -/
def isContinuation (b : UInt8) : Bool :=
  0x80 ≤ b && b ≤ 0xBF

/-- How many bytes follow the first byte of a character, and which range the first of
them must have. -/
def leading (b : UInt8) : Option (Nat × UInt8 × UInt8) :=
  if 0xC2 ≤ b && b ≤ 0xDF then some (1, 0x80, 0xBF)
  else if b == 0xE0 then some (2, 0xA0, 0xBF)
  else if b == 0xED then some (2, 0x80, 0x9F)
  else if 0xE1 ≤ b && b ≤ 0xEF then some (2, 0x80, 0xBF)
  else if b == 0xF0 then some (3, 0x90, 0xBF)
  else if 0xF1 ≤ b && b ≤ 0xF3 then some (3, 0x80, 0xBF)
  else if b == 0xF4 then some (3, 0x80, 0x8F)
  else none

/-- A character that has been begun: its value so far, how many bytes it still needs and the
range of the next one. -/
structure Partial where
  value : Nat
  missing : Nat
  low : UInt8
  high : UInt8

/-- Start of a character at `b`, or its replacement. -/
def beginChar (b : UInt8) : List Char × Option Partial :=
  if b < 0x80 then ([Char.ofNat b.toNat], none)
  else
    match leading b with
    | none => ([replacement], none)
    | some (missing, low, high) =>
      let bits := if missing == 1 then 0x1F else if missing == 2 then 0x0F else 0x07
      ([], some ⟨b.toNat &&& bits, missing, low, high⟩)

/-- Read bytes with a replacement for each maximal ill-formed part; `pending` is the character
begun before `bytes`. -/
def decodeLossyFrom (pending : Option Partial) : List UInt8 → List Char
  | [] => if pending.isSome then [replacement] else []
  | b :: rest =>
    match pending with
    | none =>
      let (cs, next) := beginChar b
      cs ++ decodeLossyFrom next rest
    | some p =>
      if p.low ≤ b && b ≤ p.high then
        let value := p.value * 64 + (b.toNat &&& 0x3F)
        if p.missing ≤ 1 then Char.ofNat value :: decodeLossyFrom none rest
        else decodeLossyFrom (some ⟨value, p.missing - 1, 0x80, 0xBF⟩) rest
      else
        let (cs, next) := beginChar b
        replacement :: cs ++ decodeLossyFrom next rest

/-- The text of the bytes, with U+FFFD for every maximal ill-formed part. -/
def decodeLossy (bytes : ByteArray) : String :=
  match decode? bytes with
  | some s => s
  | none => String.ofList (decodeLossyFrom none bytes.toList)

theorem decode?_toUTF8 (s : String) : decode? s.toUTF8 = some s := by
  simp [decode?, String.fromUTF8?, String.toUTF8, String.fromUTF8, s.isValidUTF8]

theorem decodeLossy_toUTF8 (s : String) : decodeLossy s.toUTF8 = s := by
  rw [decodeLossy, decode?_toUTF8]

/-- A text of characters of one byte has as many bytes as characters. -/
theorem utf8ByteSize_ofList {cs : List Char} (h : ∀ c ∈ cs, c.utf8Size = 1) :
    (String.ofList cs).utf8ByteSize = cs.length := by
  induction cs with
  | nil => rfl
  | cons c cs ih =>
    rw [List.forall_mem_cons] at h
    rw [String.ofList_cons, String.utf8ByteSize_append, String.utf8ByteSize_singleton, ih h.2, h.1,
      List.length_cons, Nat.add_comm]

end EmbeddedSolidity.Text
