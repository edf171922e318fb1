import Mathlib
import TexturePack.Json.Parser
import TexturePack.Json.Printer

/-! Strings of a JSON text. Every text can stand between quotes, and is read back from there:
each character is one code point, escaped or not, and no character is half of a surrogate pair. -/
namespace TexturePack.Json

open Text

variable {c : Char} {cs : List Char}

theorem hexValue?_hexDigit {n : Nat} (h : n < 16) : hexValue? (hexDigit n) = some n := by
  decide +revert

/-- Puts a code point in front of those behind it. -/
def withPoint (n : Nat) (r : List Nat × List Char) : List Nat × List Char := (n :: r.1, r.2)

theorem codePoints?_plain (hquote : c ≠ '"') (hslash : c ≠ '\\') (h : 32 ≤ c.toNat) :
    codePoints? (c :: cs) = (codePoints? cs).map (withPoint c.toNat) := by
  rw [codePoints?.eq_5 c cs hquote (fun _ _ _ _ _ hc _ => hslash hc) (fun _ _ hc _ => hslash hc),
    if_neg h.not_gt]
  cases codePoints? cs <;> rfl

theorem codePoints?_escape {n : Nat} (hu : c ≠ 'u') (h : escape? c = some n) :
    codePoints? ('\\' :: c :: cs) = (codePoints? cs).map (withPoint n) := by
  rw [codePoints?.eq_4 c cs fun _ _ _ _ _ hc _ => hu hc, h]
  cases codePoints? cs <;> rfl

theorem codePoints?_unicode {n : Nat} (h : n < 256) :
    codePoints? ('\\' :: 'u' :: '0' :: '0' :: hexDigit (n / 16) :: hexDigit (n % 16) :: cs) =
      (codePoints? cs).map (withPoint n) := by
  have hhigh : hexValue? (hexDigit (n / 16)) = some (n / 16) := hexValue?_hexDigit (by omega)
  have hlow : hexValue? (hexDigit (n % 16)) = some (n % 16) := hexValue?_hexDigit (by omega)
  have hzero : hexValue? '0' = some 0 := rfl
  have hvalue : 4096 * 0 + 256 * 0 + 16 * (n / 16) + n % 16 = n := by omega
  rw [codePoints?.eq_3, hzero, hhigh, hlow]
  simp only [Option.bind_eq_bind, Option.bind_some, hvalue]
  cases codePoints? cs <;> rfl

/-- What is written for a character is read as its code point. -/
theorem codePoints?_escaped (c : Char) (cs : List Char) :
    codePoints? (escaped c ++ cs) = (codePoints? cs).map (withPoint c.toNat) := by
  unfold escaped
  split_ifs with hmark hline htab hreturn hback hfeed hcontrol
  · rcases hmark with rfl | rfl <;> exact codePoints?_escape (by decide) rfl
  · exact codePoints?_escape (by decide) (hline ▸ rfl)
  · exact codePoints?_escape (by decide) (htab ▸ rfl)
  · exact codePoints?_escape (by decide) (hreturn ▸ rfl)
  · exact codePoints?_escape (by decide) (hback ▸ rfl)
  · exact codePoints?_escape (by decide) (hfeed ▸ rfl)
  · exact codePoints?_unicode (by omega)
  · obtain ⟨hquote, hslash⟩ := not_or.mp hmark
    exact codePoints?_plain hquote hslash (not_lt.mp hcontrol)

theorem codePoints?_flatMap (cs rest : List Char) :
    codePoints? (cs.flatMap escaped ++ '"' :: rest) = some (cs.map Char.toNat, rest) := by
  induction cs with
  | nil => rfl
  | cons c cs ih =>
    rw [List.flatMap_cons, List.append_assoc, codePoints?_escaped, ih]
    rfl

/-- A character is no half of a surrogate pair. -/
theorem isLeading_toNat (c : Char) : isLeading c.toNat = false := by
  have hvalid := c.valid
  simp only [isLeading, Bool.and_eq_false_iff, decide_eq_false_iff_not]
  simp only [UInt32.isValidChar, Nat.isValidChar] at hvalid
  simp only [Char.toNat]
  omega

theorem isTrailing_toNat (c : Char) : isTrailing c.toNat = false := by
  have hvalid := c.valid
  simp only [isTrailing, Bool.and_eq_false_iff, decide_eq_false_iff_not]
  simp only [UInt32.isValidChar, Nat.isValidChar] at hvalid
  simp only [Char.toNat]
  omega

theorem characters?_map_toNat (cs : List Char) : characters? (cs.map Char.toNat) = some cs := by
  induction cs with
  | nil => rfl
  | cons c cs ih =>
    cases cs with
    | nil => simp [characters?, isLeading_toNat, isTrailing_toNat, Char.ofNat_toNat]
    | cons d cs =>
      rw [List.map_cons, List.map_cons, characters?, isLeading_toNat c, isTrailing_toNat c,
        ← List.map_cons, ih]
      simp [Char.ofNat_toNat]

theorem string?_flatMap (s : String) (rest : List Char) :
    string? (s.toList.flatMap escaped ++ '"' :: rest) = some (some s, rest) := by
  simp [string?, codePoints?_flatMap, characters?_map_toNat]

end TexturePack.Json
