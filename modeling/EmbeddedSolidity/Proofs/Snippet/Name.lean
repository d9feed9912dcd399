import EmbeddedSolidity.Snippet.Id
import EmbeddedSolidity.Text.Utf8

/-!
# The names of snippets

A name keeps the first eight bytes of the digest as it is written, sixty-four hexadecimal digits. Each
digit is one byte, so for every text there are eight bytes to keep and no character is cut: what is
kept are the digits of the first word.

* `Text.upTo?` : the first bytes of a text, if the text can be cut behind them;
* `Snippet.Id.identify?_eq` : the cut through the digest succeeds and gives the name;
* `Snippet.Id.wellFormed_ofText`, `Snippet.Id.length_name` : the form of a name.
-/

namespace EmbeddedSolidity

namespace Text

/-- The first `count` bytes of a text, if it has as many and no character is cut. -/
def upTo? (count : Nat) (text : String) : Option String :=
  if h : (⟨count⟩ : String.Pos.Raw).IsValid text then some (text.sliceTo ⟨⟨count⟩, h⟩).copy
  else none

theorem upTo?_append (front back : String) :
    upTo? front.utf8ByteSize (front ++ back) = some front := by
  have hvalid : (⟨front.utf8ByteSize⟩ : String.Pos.Raw).IsValid (front ++ back) :=
    String.Pos.Raw.isValid_iff_exists_append.2 ⟨front, back, rfl, rfl⟩
  have hsplits : (⟨_, hvalid⟩ : (front ++ back).Pos).Splits front back := ⟨rfl, rfl⟩
  unfold upTo?
  rw [dif_pos hvalid, hsplits.copy_sliceTo_eq]

end Text

namespace Digest

/-- The hexadecimal digits, lower case. -/
def hexDigits : List Char :=
  ['0', '1', '2', '3', '4', '5', '6', '7', '8', '9', 'a', 'b', 'c', 'd', 'e', 'f']

theorem mem_hexDigits {word : UInt32} {c : Char} (h : c ∈ hexOfWord word) : c ∈ hexDigits := by
  have hdigit : ∀ digit < 16,
      (if digit < 10 then Char.ofNat (48 + digit) else Char.ofNat (87 + digit)) ∈ hexDigits := by
    decide
  obtain ⟨i, -, rfl⟩ := List.mem_map.1 h
  exact hdigit _ (Nat.mod_lt _ (by decide))

/-- Each of the eight digits of a word is one byte. -/
theorem utf8ByteSize_hexOfWord (word : UInt32) :
    (String.ofList (hexOfWord word)).utf8ByteSize = 8 := by
  have hbyte : hexDigits.all (·.utf8Size == 1) = true := by decide
  rw [Text.utf8ByteSize_ofList fun c hc => eq_of_beq (List.all_eq_true.1 hbyte c (mem_hexDigits hc)),
    length_hexOfWord]

/-- A digest as it is written, word by word. -/
def Words.hex (w : Words) : String :=
  String.ofList ([w.a, w.b, w.c, w.d, w.e, w.f, w.g, w.h].flatMap hexOfWord)

/-- The first eight bytes are the digits of the first word. -/
theorem upTo?_hex (w : Words) : Text.upTo? 8 w.hex = some (String.ofList (hexOfWord w.a)) := by
  unfold Words.hex
  rw [List.flatMap_cons, String.ofList_append, ← utf8ByteSize_hexOfWord w.a, Text.upTo?_append]

end Digest

namespace Snippet.Id

/-- The name of a text from its digest as it is written, if eight bytes can be cut from that. -/
def identify? (text : String) : Option Id :=
  (Text.upTo? 8 (Digest.sha256 text.toUTF8).hex).map fun digits => ⟨tag ++ digits⟩

/-- There are always eight bytes to cut. -/
theorem identify?_eq (text : String) : identify? text = some (ofText text) := by
  unfold identify?
  rw [Digest.upTo?_hex]
  rfl

example : identify? "contract C {}" = some ⟨"SolSnippet_51feb570"⟩ := by decide +kernel

/-- A name is the tag and eight hexadecimal digits in lower case. -/
def WellFormed (id : Id) : Prop :=
  ∃ digits : List Char, id.name = tag ++ String.ofList digits ∧ digits.length = 8 ∧
    ∀ c ∈ digits, c ∈ Digest.hexDigits

theorem wellFormed_ofText (text : String) : (ofText text).WellFormed :=
  ⟨digits text, rfl, Digest.length_hexOfWord _, fun _ hc => Digest.mem_hexDigits hc⟩

/-- All names are equally long. -/
theorem WellFormed.length_name {id : Id} (h : id.WellFormed) : id.name.toList.length = 19 := by
  obtain ⟨digits, hname, hlength, -⟩ := h
  rw [hname, String.toList_append, List.length_append, String.toList_ofList, hlength]
  rfl

/-- A name has nothing in it but letters, digits and an underscore. -/
theorem WellFormed.isAlphanum_of_mem {id : Id} (h : id.WellFormed) {c : Char}
    (hc : c ∈ id.name.toList) : c.isAlphanum = true ∨ c = '_' := by
  obtain ⟨digits, hname, -, hdigits⟩ := h
  rw [hname, String.toList_append, List.mem_append, String.toList_ofList] at hc
  rcases hc with hc | hc
  · have htag : tag.toList.all (fun c => c.isAlphanum || c == '_') = true := by decide
    simpa using List.all_eq_true.1 htag c hc
  · have hdigit : Digest.hexDigits.all Char.isAlphanum = true := by decide
    exact Or.inl (List.all_eq_true.1 hdigit c (hdigits c hc))

end Snippet.Id

end EmbeddedSolidity
