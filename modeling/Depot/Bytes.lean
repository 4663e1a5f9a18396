/-!
Byte strings: what files hold and what is sent. Text is stored as UTF-8; `text?_ofText` says that
it is read back as it was.
-/
namespace Depot

abbrev Bytes := List UInt8

namespace Bytes

/-- The UTF-8 form of a text. -/
def ofText (s : String) : Bytes :=
  s.toUTF8.data.toList

/-- The text of which these bytes are the UTF-8 form, if they are one. -/
def text? (b : Bytes) : Option String :=
  String.fromUTF8? ⟨b.toArray⟩

theorem text?_ofText (s : String) : text? (ofText s) = some s := by
  have h : (⟨(ofText s).toArray⟩ : ByteArray) = s.toByteArray := by simp [ofText]
  rw [text?, h, String.fromUTF8?, dif_pos s.isValidUTF8]
  rfl

theorem ofText_injective {s t : String} (h : ofText s = ofText t) : s = t := by
  have := text?_ofText s
  rw [h, text?_ofText] at this
  exact (Option.some.inj this).symm

/-- The two lower-case hexadecimal digits of a byte. -/
def hexPair (b : UInt8) : List Char :=
  [Nat.digitChar (b.toNat / 16), Nat.digitChar (b.toNat % 16)]

/-- The bytes in lower-case hexadecimal. -/
def hex (b : Bytes) : String :=
  String.ofList (b.flatMap hexPair)

theorem length_hex (b : Bytes) : (hex b).length = 2 * b.length := by
  induction b with
  | nil => rfl
  | cons x b ih =>
    simp only [hex, String.length_ofList, List.length_flatMap, List.map_cons, List.sum_cons] at ih ⊢
    simp only [hexPair, List.length_cons, List.length_nil] at ih ⊢
    omega

end Bytes
end Depot
