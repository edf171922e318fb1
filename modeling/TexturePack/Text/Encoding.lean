import TexturePack.Bytes

/-! Text from bytes. Where they may not be UTF-8, each longest stretch that begins like a character
and does not go on like one is replaced by one mark. Archives that do not say they use UTF-8 have
a character set of their own, whose lower half is ASCII. -/
namespace TexturePack.Text

/-- What the first byte of a character announces: the bytes that have to follow,
the bounds of the first of them, and the bits it gives. -/
structure Lead where
  following : Nat
  low : Nat
  high : Nat
  value : Nat

def lead? (b : UInt8) : Option Lead :=
  let n := b.toNat
  if n < 0x80 then some ⟨0, 0x80, 0xBF, n⟩
  else if 0xC2 ≤ n ∧ n ≤ 0xDF then some ⟨1, 0x80, 0xBF, n % 32⟩
  else if n = 0xE0 then some ⟨2, 0xA0, 0xBF, n % 16⟩
  else if n = 0xED then some ⟨2, 0x80, 0x9F, n % 16⟩
  else if 0xE1 ≤ n ∧ n ≤ 0xEF then some ⟨2, 0x80, 0xBF, n % 16⟩
  else if n = 0xF0 then some ⟨3, 0x90, 0xBF, n % 8⟩
  else if 0xF1 ≤ n ∧ n ≤ 0xF3 then some ⟨3, 0x80, 0xBF, n % 8⟩
  else if n = 0xF4 then some ⟨3, 0x80, 0x8F, n % 8⟩
  else none

/-- The replacement mark. -/
def mark : Char := Char.ofNat 0xFFFD

/-- Reads on inside a character of which `missing` bytes have to come, the next of
them between two bounds. -/
def scan (missing low high value : Nat) : Bytes → List Char
  | [] => if missing = 0 then [] else [mark]
  | b :: bs =>
      if missing ≠ 0 ∧ low ≤ b.toNat ∧ b.toNat ≤ high then
        let value := 64 * value + b.toNat % 64
        if missing = 1 then Char.ofNat value :: scan 0 0 0 0 bs
        else scan (missing - 1) 0x80 0xBF value bs
      else
        let broken := if missing = 0 then [] else [mark]
        broken ++ match lead? b with
          | none => mark :: scan 0 0 0 0 bs
          | some l =>
              if l.following = 0 then Char.ofNat l.value :: scan 0 0 0 0 bs
              else scan l.following l.low l.high l.value bs

def lossy (bs : Bytes) : String := String.ofList (scan 0 0 0 0 bs)

namespace CodePage437

def upper : List Nat :=
  [0xC7, 0xFC, 0xE9, 0xE2, 0xE4, 0xE0, 0xE5, 0xE7, 0xEA, 0xEB, 0xE8, 0xEF, 0xEE, 0xEC, 0xC4, 0xC5,
    0xC9, 0xE6, 0xC6, 0xF4, 0xF6, 0xF2, 0xFB, 0xF9, 0xFF, 0xD6, 0xDC, 0xA2, 0xA3, 0xA5, 0x20A7,
    0x192, 0xE1, 0xED, 0xF3, 0xFA, 0xF1, 0xD1, 0xAA, 0xBA, 0xBF, 0x2310, 0xAC, 0xBD, 0xBC, 0xA1,
    0xAB, 0xBB, 0x2591, 0x2592, 0x2593, 0x2502, 0x2524, 0x2561, 0x2562, 0x2556, 0x2555, 0x2563,
    0x2551, 0x2557, 0x255D, 0x255C, 0x255B, 0x2510, 0x2514, 0x2534, 0x252C, 0x251C, 0x2500, 0x253C,
    0x255E, 0x255F, 0x255A, 0x2554, 0x2569, 0x2566, 0x2560, 0x2550, 0x256C, 0x2567, 0x2568, 0x2564,
    0x2565, 0x2559, 0x2558, 0x2552, 0x2553, 0x256B, 0x256A, 0x2518, 0x250C, 0x2588, 0x2584, 0x258C,
    0x2590, 0x2580, 0x3B1, 0xDF, 0x393, 0x3C0, 0x3A3, 0x3C3, 0xB5, 0x3C4, 0x3A6, 0x398, 0x3A9,
    0x3B4, 0x221E, 0x3C6, 0x3B5, 0x2229, 0x2261, 0xB1, 0x2265, 0x2264, 0x2320, 0x2321, 0xF7,
    0x2248, 0xB0, 0x2219, 0xB7, 0x221A, 0x207F, 0xB2, 0x25A0, 0xA0]

def char (b : UInt8) : Char :=
  if b.toNat < 128 then Char.ofNat b.toNat else Char.ofNat (upper.getD (b.toNat - 128) 0)

def decode (bs : Bytes) : String := String.ofList (bs.map char)

end CodePage437

end TexturePack.Text
