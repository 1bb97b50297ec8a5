/-!
# Bytes as text

Four characters of an alphabet of 64 stand for three bytes. Characters outside
of the alphabet are passed over. One equals sign after three characters, or
two after two, end the text.

Results:
* `decodeFrom_length`: the bytes are no more than the characters.
-/
namespace RouteDocs.Text.Base64

/-- The six bits that a character stands for. -/
def sextet? (c : Char) : Option Nat :=
  if 'A' ≤ c ∧ c ≤ 'Z' then some (c.toNat - 0x41)
  else if 'a' ≤ c ∧ c ≤ 'z' then some (c.toNat - 0x47)
  else if '0' ≤ c ∧ c ≤ '9' then some (c.toNat + 4)
  else if c = '+' then some 62
  else if c = '/' then some 63
  else none

/-- The byte that the bits left over and the six bits of a character make, if they make one, and
the bits left over then. `place` is the character's place among four. -/
def join (place left bits : Nat) : Option UInt8 × Nat :=
  match place with
  | 0 => (none, bits)
  | 1 => (some (UInt8.ofNat (left * 4 + bits / 16)), bits % 16)
  | 2 => (some (UInt8.ofNat (left * 16 + bits / 4)), bits % 4)
  | _ => (some (UInt8.ofNat (left * 64 + bits)), 0)

/-- The bytes of a text from a place among four on, with the bits left over and the number of
equals signs just before. None if the text ends within four characters. -/
def decodeFrom (place left signs : Nat) : List Char → Option (List UInt8)
  | [] => if place = 0 then some [] else none
  | c :: rest =>
    if c = '=' then
      if place < 2 then decodeFrom place left signs rest
      else if 4 ≤ place + signs + 1 then some []
      else decodeFrom place left (signs + 1) rest
    else
      match sextet? c with
      | none => decodeFrom place left signs rest
      | some bits =>
        let (byte, left) := join place left bits
        (decodeFrom ((place + 1) % 4) left 0 rest).map (byte.toList ++ ·)

def decode? (s : List Char) : Option (List UInt8) :=
  decodeFrom 0 0 0 s

theorem decodeFrom_length {s : List Char} {place left signs : Nat} {bytes : List UInt8}
    (h : decodeFrom place left signs s = some bytes) : bytes.length ≤ s.length := by
  induction s generalizing place left signs bytes with
  | nil => simp only [decodeFrom, Option.ite_none_right_eq_some, Option.some.injEq] at h; simp [← h.2]
  | cons c rest ih =>
    simp only [decodeFrom] at h
    split at h
    · split at h
      · exact Nat.le_succ_of_le (ih h)
      · split at h
        · simp only [Option.some.injEq] at h; simp [← h]
        · exact Nat.le_succ_of_le (ih h)
    · split at h
      · exact Nat.le_succ_of_le (ih h)
      · obtain ⟨more, hm, rfl⟩ := Option.map_eq_some_iff.1 h
        have := ih hm
        have hb : ∀ b : Option UInt8, b.toList.length ≤ 1 := by intro b; cases b <;> simp
        have := hb (join place left ‹Nat›).1
        simp only [List.length_append, List.length_cons]
        omega

end RouteDocs.Text.Base64
