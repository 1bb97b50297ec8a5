import RouteDocs.Text.Utf8

/-!
# The bytes of a text

A text is written to a file as the UTF-8 bytes of its characters. Each character
takes one to four bytes. The first says how many follow, and each of these holds
six bits of the code point.

Results:
* `symbolsFrom_character`: the bytes of a character are read as the character.
* `symbolsOfBytes_utf8`: the bytes of a text are read as its characters.
-/
namespace RouteDocs.Text

/-! ## Bytes by their value -/

theorem toNat_byte {n : Nat} (h : n < 256) : (UInt8.ofNat n).toNat = n := by
  rw [UInt8.toNat_ofNat']
  omega

theorem continuation?_byte {n : Nat} (h : n < 0x40) :
    continuation? (UInt8.ofNat (n + 0x80)) = some n := by
  have hbyte := toNat_byte (n := n + 0x80) (by omega)
  rw [continuation?, if_pos, hbyte]
  · congr 1
    omega
  · simp only [UInt8.le_iff_toNat_le, UInt8.lt_iff_toNat_lt, hbyte]
    exact ⟨by simp, by simp; omega⟩

/-- The code point of a character is that of a character. -/
theorem scalar?_toNat {least : Nat} {c : Char} (h : least ≤ c.toNat) :
    scalar? least c.toNat = some c := by
  have hvalid : c.toNat < 0xd800 ∨ 0xdfff < c.toNat ∧ c.toNat < 0x110000 := c.valid
  rw [scalar?, if_pos (by omega), Char.ofNat_toNat]

/-! ## Characters -/

section
variable (c : Char) {rest : List UInt8}

theorem character?_one (h : c.toNat < 0x80) :
    character? (UInt8.ofNat c.toNat) rest = some (c, 0) := by
  have ha := toNat_byte (n := c.toNat) (by omega)
  simp [character?, UInt8.lt_iff_toNat_lt, ha, h]

theorem character?_two {x y : Nat} (hc : c.toNat = x * 0x40 + y) (hx : x < 0x20) (hy : y < 0x40)
    (h : 0x80 ≤ c.toNat) :
    character? (UInt8.ofNat (x + 0xc0)) (UInt8.ofNat (y + 0x80) :: rest) = some (c, 1) := by
  have ha := toNat_byte (n := x + 0xc0) (by omega)
  have hx' : (x + 0xc0) % 0x20 = x := by omega
  rw [character?]
  simp only [UInt8.lt_iff_toNat_lt, ha, UInt8.reduceToNat, hx', List.getElem?_cons_zero]
  rw [if_neg (by omega), if_neg (by omega), if_pos (by omega)]
  simp only [bind, Option.bind_some, Functor.map, Option.map_some, continuation?_byte hy,
    ← hc, scalar?_toNat h]

theorem character?_three {x y z : Nat} (hc : c.toNat = (x * 0x40 + y) * 0x40 + z) (hx : x < 0x10)
    (hy : y < 0x40) (hz : z < 0x40) (h : 0x800 ≤ c.toNat) :
    character? (UInt8.ofNat (x + 0xe0)) (UInt8.ofNat (y + 0x80) :: UInt8.ofNat (z + 0x80) :: rest) =
      some (c, 2) := by
  have ha := toNat_byte (n := x + 0xe0) (by omega)
  have hx' : (x + 0xe0) % 0x10 = x := by omega
  rw [character?]
  simp only [UInt8.lt_iff_toNat_lt, ha, UInt8.reduceToNat, hx', List.getElem?_cons_zero,
    List.getElem?_cons_succ]
  rw [if_neg (by omega), if_neg (by omega), if_neg (by omega), if_pos (by omega)]
  simp only [bind, Option.bind_some, Functor.map, Option.map_some, continuation?_byte hy,
    continuation?_byte hz, ← hc, scalar?_toNat h]

theorem character?_four {w x y z : Nat} (hc : c.toNat = ((w * 0x40 + x) * 0x40 + y) * 0x40 + z)
    (hw : w < 0x08) (hx : x < 0x40) (hy : y < 0x40) (hz : z < 0x40) (h : 0x10000 ≤ c.toNat) :
    character? (UInt8.ofNat (w + 0xf0)) (UInt8.ofNat (x + 0x80) :: UInt8.ofNat (y + 0x80) ::
      UInt8.ofNat (z + 0x80) :: rest) = some (c, 3) := by
  have ha := toNat_byte (n := w + 0xf0) (by omega)
  have hw' : (w + 0xf0) % 0x08 = w := by omega
  rw [character?]
  simp only [UInt8.lt_iff_toNat_lt, ha, UInt8.reduceToNat, hw', List.getElem?_cons_zero,
    List.getElem?_cons_succ]
  rw [if_neg (by omega), if_neg (by omega), if_neg (by omega), if_neg (by omega),
    if_pos (by omega)]
  simp only [bind, Option.bind_some, Functor.map, Option.map_some, continuation?_byte hx,
    continuation?_byte hy, continuation?_byte hz, ← hc, scalar?_toNat h]

end

/-- The bytes of a character are read as the character. -/
theorem symbolsFrom_character (c : Char) (rest : List UInt8) :
    symbolsFrom 0 (String.utf8EncodeChar c ++ rest) = .char c :: symbolsFrom 0 rest := by
  have hvalid : c.toNat < 0xd800 ∨ 0xdfff < c.toNat ∧ c.toNat < 0x110000 := c.valid
  have hval : c.val.toNat = c.toNat := rfl
  simp only [String.utf8EncodeChar, hval]
  split
  · rw [List.singleton_append, symbolsFrom, character?_one c (by omega)]
  · split
    · rw [List.cons_append, List.singleton_append, symbolsFrom,
        character?_two c (by omega) (by omega) (by omega) (by omega)]
      rfl
    · split
      · rw [List.cons_append, List.cons_append, List.singleton_append, symbolsFrom,
          character?_three c (by omega) (by omega) (by omega) (by omega) (by omega)]
        rfl
      · rw [List.cons_append, List.cons_append, List.cons_append, List.singleton_append,
          symbolsFrom, character?_four c (by omega) (by omega) (by omega) (by omega) (by omega)
            (by omega)]
        rfl

/-! ## Texts -/

theorem toList_bytes (b : ByteArray) : b.toList = b.data.toList := by
  have hloop : ∀ (i : Nat) (done : List UInt8),
      ByteArray.toList.loop b i done = done.reverse ++ b.data.toList.drop i := by
    intro i done
    fun_induction ByteArray.toList.loop b i done with
    | case1 i done h ih =>
      have hi : i < b.data.toList.length := by simpa using h
      rw [ih, List.drop_eq_getElem_cons hi, List.reverse_cons, List.append_assoc]
      simp [ByteArray.get!, h]
    | case2 i done h =>
      have hi : b.data.toList.length ≤ i := by simpa using h
      simp [List.drop_eq_nil_of_le hi]
  simp [ByteArray.toList, hloop]

/-- The bytes of a text are read as its characters. -/
theorem symbolsOfBytes_utf8 (s : String) : symbolsOfBytes s.toUTF8.toList = symbols s := by
  have hchars : ∀ cs : List Char,
      symbolsFrom 0 (cs.flatMap String.utf8EncodeChar) = cs.map .char := by
    intro cs
    induction cs with
    | nil => rfl
    | cons c rest ih => rw [List.flatMap_cons, symbolsFrom_character, ih, List.map_cons]
  have hbytes : s.toUTF8.data.toList = s.toList.flatMap String.utf8EncodeChar := by
    have hencode : s.toUTF8 = (s.toList.flatMap String.utf8EncodeChar).toByteArray :=
      String.utf8Encode_toList.symm
    rw [hencode, List.toList_data_toByteArray]
  rw [toList_bytes, hbytes]
  exact hchars s.toList

end RouteDocs.Text
