import Mathlib
import TexturePack.Json.Parser
import TexturePack.Json.Printer
import TexturePack.Proofs.Binary64

/-! Numbers of a JSON text. What is written for a number is read as that number: digits alone
stay digits alone, and a decimal keeps its sign and what it stands for, though zeros up to the
point become digits of its own. -/
namespace TexturePack

namespace Text

theorem isDigit_digitChar (d : Nat) : isDigit (digitChar d) = true := by
  have h : d % 10 < 10 := Nat.mod_lt _ (by decide)
  unfold digitChar
  generalize d % 10 = r at h
  decide +revert

theorem isDigit_of_mem_digits {n : Nat} {c : Char} (h : c ∈ digits n) : isDigit c = true := by
  induction n using Nat.strongRecOn with
  | ind n ih =>
    rw [digits] at h
    split_ifs at h with hn
    · rw [List.mem_singleton.mp h]
      exact isDigit_digitChar n
    · rcases List.mem_append.mp h with h | h
      · exact ih (n / 10) (by omega) h
      · rw [List.mem_singleton.mp h]
        exact isDigit_digitChar n

theorem digits_ne_nil (n : Nat) : digits n ≠ [] := by
  rw [digits]
  split_ifs <;> simp

/-- Only zero begins with a zero. -/
theorem eq_zero_of_head? {n : Nat} (h : (digits n).head? = some '0') : n = 0 := by
  induction n using Nat.strongRecOn with
  | ind n ih =>
    rw [digits] at h
    split_ifs at h with hn
    · have hdigit := digitValue_digitChar n
      rw [Option.some.inj h, Nat.mod_eq_of_lt hn] at hdigit
      exact hdigit.symm
    · rw [List.head?_append_of_ne_nil _ (digits_ne_nil _)] at h
      have hfront := ih (n / 10) (by omega) h
      omega

theorem digits_zero : digits 0 = ['0'] := by
  rw [digits]
  rfl

theorem ofDigits_append (ds es : List Char) :
    ofDigits (ds ++ es) = ofDigits ds * 10 ^ es.length + ofDigits es := by
  induction es using List.reverseRecOn with
  | nil => simp [ofDigits]
  | append_singleton es c ih =>
    simp only [ofDigits, List.foldl_append, List.foldl_cons, List.foldl_nil,
      List.length_append, List.length_singleton] at ih ⊢
    rw [ih]
    ring

end Text

namespace Json

open Text

/-- Text behind which a number ends. -/
def Ends (rest : List Char) : Prop :=
  ∀ c ∈ rest.head?, isDigit c = false ∧ c ≠ '.' ∧ c ≠ 'e' ∧ c ≠ 'E'

/-- Text behind which digits end. -/
def EndsDigits (rest : List Char) : Prop := ∀ c ∈ rest.head?, isDigit c = false

variable {rest ds : List Char}

theorem ends_nil : Ends [] := fun _ h => nomatch h

theorem ends_cons {c : Char} (hc : isDigit c = false ∧ c ≠ '.' ∧ c ≠ 'e' ∧ c ≠ 'E')
    (rest : List Char) : Ends (c :: rest) := fun _ h => Option.mem_some.mp h ▸ hc

theorem Ends.endsDigits (h : Ends rest) : EndsDigits rest := fun c hc => (h c hc).1

theorem digits?_append (hds : ∀ c ∈ ds, isDigit c = true) (hne : ds ≠ [])
    (hrest : EndsDigits rest) : digits? (ds ++ rest) = some (ds, rest) := by
  have htake : rest.takeWhile isDigit = [] := by
    cases rest with
    | nil => rfl
    | cons c rest => simp [hrest c rfl]
  have hdrop : rest.dropWhile isDigit = rest := by
    cases rest with
    | nil => rfl
    | cons c rest => simp [hrest c rfl]
  rw [digits?, List.takeWhile_append_of_pos hds, List.dropWhile_append_of_pos hds, htake, hdrop,
    List.append_nil]
  exact if_neg (by simpa using hne)

theorem digit_of_unsigned? {cs : List Char} {r : Number × List Char} {negative : Bool}
    (h : unsigned? negative cs = some r) : ∃ c rest, cs = c :: rest ∧ isDigit c = true := by
  cases cs with
  | nil => cases h
  | cons c rest =>
    refine ⟨c, rest, rfl, ?_⟩
    by_contra hc
    simp [unsigned?, wholePart?, digits?, hc] at h

theorem number?_eq_unsigned? {cs : List Char} {r : Number × List Char}
    (h : unsigned? false cs = some r) : number? cs = some r := by
  obtain ⟨c, rest, rfl, hc⟩ := digit_of_unsigned? h
  rw [← h]
  refine number?.eq_2 _ fun rest hminus => ?_
  rw [(List.cons.inj hminus).1] at hc
  cases hc

/-- A number begins with a digit or a sign. -/
theorem head_of_number? {cs : List Char} {r : Number × List Char} (h : number? cs = some r) :
    ∃ c rest, cs = c :: rest ∧ (isDigit c = true ∨ c = '-') := by
  rcases cs with _ | ⟨c, rest⟩
  · cases h
  · refine ⟨c, rest, rfl, ?_⟩
    by_cases hc : c = '-'
    · exact .inr hc
    · rw [number?.eq_2 _ fun rest hminus => hc (List.cons.inj hminus).1] at h
      obtain ⟨d, ds, hcs, hd⟩ := digit_of_unsigned? h
      rw [(List.cons.inj hcs).1]
      exact .inl hd

/-- The parts that the text of a number has. -/
structure Spelling where
  whole : List Char
  /-- Empty where there is no point. -/
  fraction : List Char
  exponent : Option Int

namespace Spelling

def exponentText (e : Int) : List Char :=
  'e' :: (if e < 0 then '-' else '+') :: digits e.natAbs

def text (p : Spelling) : List Char :=
  p.whole ++ ((if p.fraction = [] then [] else '.' :: p.fraction) ++
    p.exponent.elim [] exponentText)

structure Valid (p : Spelling) : Prop where
  whole_digits : ∀ c ∈ p.whole, isDigit c = true
  whole_ne_nil : p.whole ≠ []
  no_needless_zero : p.whole.head? = some '0' → p.whole.length = 1
  fraction_digits : ∀ c ∈ p.fraction, isDigit c = true

/-- What the text of the parts is read as. -/
def number (p : Spelling) (negative : Bool) : Number :=
  if !negative ∧ p.fraction.isEmpty ∧ p.exponent.isNone then .whole (ofDigits p.whole)
  else .decimal negative (ofDigits (p.whole ++ p.fraction))
    (p.exponent.getD 0 - p.fraction.length)

variable {p : Spelling}

theorem exponent?_append (hrest : Ends rest) (exponent : Option Int) :
    exponent? (exponent.elim [] exponentText ++ rest) = some (exponent, rest) := by
  cases exponent with
  | none =>
    cases rest with
    | nil => rfl
    | cons c rest =>
      obtain ⟨-, -, he, hE⟩ := hrest c rfl
      simp [exponent?, he, hE]
  | some e =>
    have hdigits := digits?_append (fun c => isDigit_of_mem_digits) (digits_ne_nil e.natAbs)
      hrest.endsDigits
    rcases lt_or_ge e 0 with he | he
    · simp [exponentText, exponent?, exponentDigits?, hdigits, ofDigits_digits, he, abs_of_neg he]
    · simp [exponentText, exponent?, exponentDigits?, hdigits, ofDigits_digits, he, he.not_gt]

theorem endsDigits_exponentText (hrest : Ends rest) (exponent : Option Int) :
    EndsDigits (exponent.elim [] exponentText ++ rest) := by
  cases exponent with
  | none => exact hrest.endsDigits
  | some e =>
    intro c hc
    obtain rfl := Option.mem_some.mp hc
    rfl

theorem fraction?_append (hp : p.Valid) (hrest : Ends rest) :
    fraction? ((if p.fraction = [] then [] else '.' :: p.fraction) ++
      (p.exponent.elim [] exponentText ++ rest)) =
        some (p.fraction, p.exponent.elim [] exponentText ++ rest) := by
  split_ifs with hfraction
  · rw [hfraction, List.nil_append]
    cases p.exponent with
    | some e => rfl
    | none =>
      cases rest with
      | nil => rfl
      | cons c rest =>
        have hpoint := (hrest c rfl).2.1
        exact fraction?.eq_2 _ fun _ h => hpoint (List.cons.inj h).1
  · exact digits?_append hp.fraction_digits hfraction (endsDigits_exponentText hrest _)

theorem wholePart?_append (hp : p.Valid) (hrest : EndsDigits rest) :
    wholePart? (p.whole ++ rest) = some (p.whole, rest) := by
  have hzero : ¬(p.whole.head? = some '0' ∧ p.whole.length ≠ 1) :=
    fun h => h.2 (hp.no_needless_zero h.1)
  simp [wholePart?, digits?_append hp.whole_digits hp.whole_ne_nil hrest, hzero]

theorem unsigned?_append (hp : p.Valid) (hrest : Ends rest) (negative : Bool) :
    unsigned? negative (p.text ++ rest) = some (p.number negative, rest) := by
  have hwhole : EndsDigits ((if p.fraction = [] then [] else '.' :: p.fraction) ++
      (p.exponent.elim [] exponentText ++ rest)) := by
    split_ifs
    · exact endsDigits_exponentText hrest _
    · intro c hc
      obtain rfl := Option.mem_some.mp hc
      rfl
  rw [text, List.append_assoc, List.append_assoc, unsigned?, wholePart?_append hp hwhole]
  simp only [Option.bind_eq_bind, Option.bind_some, fraction?_append hp hrest,
    exponent?_append hrest]
  rw [number]
  split_ifs <;> rfl

theorem unsigned?_fraction {whole fraction : List Char} (hp : (mk whole fraction none).Valid)
    (hfraction : fraction ≠ []) (hrest : Ends rest) (negative : Bool) :
    unsigned? negative (whole ++ '.' :: fraction ++ rest) =
      some (.decimal negative (ofDigits (whole ++ fraction)) (-fraction.length), rest) := by
  have htext : (mk whole fraction none).text = whole ++ '.' :: fraction := by
    simp [text, hfraction]
  have hnumber : (mk whole fraction none).number negative =
      .decimal negative (ofDigits (whole ++ fraction)) (-fraction.length) := by
    simp [number, hfraction]
  rw [← htext, unsigned?_append hp hrest, hnumber]

end Spelling

namespace Number

variable {significand : Nat} {exponent : Int}

theorem ofDigits_zeros (n : Nat) : ofDigits (zeros n) = 0 := by
  induction n with
  | zero => rfl
  | succ n ih =>
    have hzeros : zeros (n + 1) = zeros n ++ ['0'] := List.replicate_succ'
    rw [hzeros, ofDigits_append, ih]
    rfl

theorem length_zeros (n : Nat) : (zeros n).length = n := List.length_replicate

theorem isDigit_of_mem_zeros {n : Nat} {c : Char} (h : c ∈ zeros n) : isDigit c = true := by
  rw [List.eq_of_mem_replicate h]
  rfl

/-- Where the point of a decimal is put. -/
def pointOf (significand : Nat) (exponent : Int) : Int :=
  if significand = 0 then 1 else (digits significand).length + exponent

/-- The number that is read for a written one. A whole number keeps its digits; one that is
written out in full with a point behind its last digit has a zero after that. -/
def respelled : Number → Number
  | whole n => whole n
  | decimal negative significand exponent =>
      let point := pointOf significand exponent
      if positional point ∧ (digits significand).length ≤ point then
        decimal negative (significand * 10 ^ (point - (digits significand).length + 1).toNat) (-1)
      else decimal negative significand exponent

theorem pointOf_of_ne_zero (h : significand ≠ 0) :
    pointOf significand exponent - (digits significand).length = exponent := by
  rw [pointOf, if_neg h, add_sub_cancel_left]

/-- Digits, and zeros up to the point. -/
theorem padded_valid {n k : Nat} (hzero : n = 0 → k = 0) {fraction : List Char}
    (hfraction : ∀ c ∈ fraction, isDigit c = true) :
    (Spelling.mk (digits n ++ zeros k) fraction none).Valid where
  whole_digits _ h := (List.mem_append.mp h).elim isDigit_of_mem_digits isDigit_of_mem_zeros
  whole_ne_nil := by simp [digits_ne_nil]
  no_needless_zero h := by
    rw [List.head?_append_of_ne_nil _ (digits_ne_nil n)] at h
    obtain rfl := eq_zero_of_head? h
    rw [hzero rfl, digits_zero]
    rfl
  fraction_digits := hfraction

/-- A point between digits, or behind the last of them where they are few. -/
theorem split_valid {n : Nat} (hn : n ≠ 0) {k : Nat} (hk : 0 < k) (exponent : Option Int) :
    (Spelling.mk ((digits n).take k) ((digits n).drop k) exponent).Valid where
  whole_digits _ h := isDigit_of_mem_digits (List.mem_of_mem_take h)
  whole_ne_nil := by simp [digits_ne_nil, hk.ne']
  no_needless_zero h := by
    rw [List.head?_take, if_neg hk.ne'] at h
    exact absurd (eq_zero_of_head? h) hn
  fraction_digits _ h := isDigit_of_mem_digits (List.mem_of_mem_drop h)

/-- All digits stand behind the point. -/
theorem leading_valid (n k : Nat) : (Spelling.mk ['0'] (zeros k ++ digits n) none).Valid where
  whole_digits _ h := List.mem_singleton.mp h ▸ rfl
  whole_ne_nil := List.cons_ne_nil _ _
  no_needless_zero _ := rfl
  fraction_digits _ h := (List.mem_append.mp h).elim isDigit_of_mem_zeros isDigit_of_mem_digits

variable {n : Nat} {point : Int}

theorem unsigned?_leading (hrest : Ends rest) (negative : Bool) (hpoint : point ≤ 0) :
    unsigned? negative (writeOut (digits n) point ++ rest) =
      some (decimal negative n (point - (digits n).length), rest) := by
  have hwrite : writeOut (digits n) point =
      ['0'] ++ '.' :: (zeros (-point).toNat ++ digits n) := if_pos hpoint
  have hdigits : ofDigits (['0'] ++ (zeros (-point).toNat ++ digits n)) = n := by
    have hzero : ofDigits ['0'] = 0 := rfl
    simp only [ofDigits_append, ofDigits_zeros, ofDigits_digits, hzero, Nat.zero_mul, Nat.zero_add]
  have hlength : -((zeros (-point).toNat ++ digits n).length : Int) =
      point - (digits n).length := by
    rw [List.length_append, length_zeros]
    omega
  rw [hwrite, Spelling.unsigned?_fraction (leading_valid n _) (by simp [digits_ne_nil]) hrest,
    hdigits, hlength]

theorem unsigned?_padded (hrest : Ends rest) (negative : Bool)
    (hpoint : (digits n).length ≤ point) (hzero : n = 0 → point = 1) :
    unsigned? negative (writeOut (digits n) point ++ rest) =
      some (decimal negative (n * 10 ^ (point - (digits n).length + 1).toNat) (-1), rest) := by
  have hlength := List.length_pos_iff.mpr (digits_ne_nil n)
  have hwrite : writeOut (digits n) point =
      digits n ++ zeros (point.toNat - (digits n).length) ++ '.' :: ['0'] := by
    rw [writeOut, if_neg (by omega)]
    exact if_pos (by omega)
  have hvalid : (Spelling.mk (digits n ++ zeros (point.toNat - (digits n).length)) ['0']
      none).Valid :=
    padded_valid (fun hn => by rw [hzero hn]; omega) fun _ h => List.mem_singleton.mp h ▸ rfl
  have hdigits : ofDigits (digits n ++ zeros (point.toNat - (digits n).length) ++ ['0']) =
      n * 10 ^ (point - (digits n).length + 1).toNat := by
    have hlast : ofDigits ['0'] = 0 := rfl
    have hplaces : (point - (digits n).length + 1).toNat =
        point.toNat - (digits n).length + 1 := by
      omega
    rw [ofDigits_append, ofDigits_append, ofDigits_zeros, ofDigits_digits, hlast, length_zeros,
      hplaces, List.length_singleton]
    ring
  rw [hwrite, Spelling.unsigned?_fraction hvalid (List.cons_ne_nil _ _) hrest, hdigits]
  rfl

theorem unsigned?_split (hrest : Ends rest) (negative : Bool) (hleft : 0 < point)
    (hright : point < (digits n).length) :
    unsigned? negative (writeOut (digits n) point ++ rest) =
      some (decimal negative n (point - (digits n).length), rest) := by
  have hn : n ≠ 0 := by
    rintro rfl
    rw [digits_zero, List.length_singleton] at hright
    omega
  have hwrite : writeOut (digits n) point =
      (digits n).take point.toNat ++ '.' :: (digits n).drop point.toNat := by
    rw [writeOut, if_neg (by omega)]
    exact if_neg (by omega)
  have hlength : -(((digits n).drop point.toNat).length : Int) = point - (digits n).length := by
    rw [List.length_drop]
    omega
  have hfraction : (digits n).drop point.toNat ≠ [] := by
    rw [Ne, List.drop_eq_nil_iff]
    omega
  rw [hwrite, Spelling.unsigned?_fraction (split_valid hn (by omega) none) hfraction hrest,
    List.take_append_drop, ofDigits_digits, hlength]

theorem unsigned?_writeOut (hrest : Ends rest) (negative : Bool)
    (hpoint : positional (pointOf significand exponent) = true) :
    unsigned? negative (writeOut (digits significand) (pointOf significand exponent) ++ rest) =
      some ((decimal negative significand exponent).respelled, rest) := by
  have hlength := List.length_pos_iff.mpr (digits_ne_nil significand)
  have hzero : significand = 0 → pointOf significand exponent = 1 := fun h => if_pos h
  simp only [respelled, hpoint, true_and]
  split_ifs with hfew
  · exact unsigned?_padded hrest negative hfew hzero
  · have hsignificand : significand ≠ 0 := by
      rintro rfl
      rw [hzero rfl, digits_zero] at hfew
      exact hfew le_rfl
    rcases le_or_gt (pointOf significand exponent) 0 with hleft | hleft
    · rw [unsigned?_leading hrest negative hleft, pointOf_of_ne_zero hsignificand]
    · rw [unsigned?_split hrest negative hleft (by omega), pointOf_of_ne_zero hsignificand]

theorem unsigned?_writeScientific (hrest : Ends rest) (negative : Bool) (hn : n ≠ 0) :
    unsigned? negative (writeScientific (digits n) point ++ rest) =
      some (decimal negative n (point - (digits n).length), rest) := by
  have hlength := List.length_pos_iff.mpr (digits_ne_nil n)
  have hwrite : writeScientific (digits n) point =
      (Spelling.mk ((digits n).take 1) ((digits n).drop 1) (some (point - 1))).text := by
    simp only [writeScientific, Spelling.text, Spelling.exponentText, List.drop_eq_nil_iff,
      Option.elim_some, List.append_assoc, List.cons_append, List.nil_append]
  have hexponent : point - 1 - (((digits n).drop 1).length : Int) = point - (digits n).length := by
    rw [List.length_drop]
    omega
  rw [hwrite, Spelling.unsigned?_append (split_valid hn one_pos _) hrest]
  simp only [Spelling.number, List.take_append_drop, ofDigits_digits, Option.getD_some, hexponent]
  rw [if_neg (by simp)]

/-- What is written for a number is read to its end, as the number respelled. -/
theorem number?_write (hrest : Ends rest) (n : Number) :
    number? (n.write ++ rest) = some (n.respelled, rest) := by
  cases n with
  | whole n =>
    have hvalid : (Spelling.mk (digits n) [] none).Valid := by
      simpa [zeros] using padded_valid (n := n) (k := 0) (fun _ => rfl) (List.forall_mem_nil _)
    have hread := Spelling.unsigned?_append hvalid hrest false
    simp only [Spelling.text, Spelling.number, if_true, Option.elim_none, List.append_nil,
      ofDigits_digits] at hread
    exact number?_eq_unsigned? hread
  | decimal negative significand exponent =>
    have hbody : unsigned? negative ((if positional (pointOf significand exponent) then
        writeOut (digits significand) (pointOf significand exponent)
      else writeScientific (digits significand) (pointOf significand exponent)) ++ rest) =
        some ((decimal negative significand exponent).respelled, rest) := by
      split_ifs with hpoint
      · exact unsigned?_writeOut hrest negative hpoint
      · have hsignificand : significand ≠ 0 := by
          rintro rfl
          exact hpoint rfl
        rw [unsigned?_writeScientific hrest negative hsignificand,
          pointOf_of_ne_zero hsignificand]
        simp only [respelled, hpoint, false_and, if_false, Bool.false_eq_true]
    cases negative with
    | false => exact number?_eq_unsigned? hbody
    | true => exact hbody

theorem negative_respelled (n : Number) : n.respelled.negative = n.negative := by
  cases n with
  | whole => rfl
  | decimal negative significand exponent =>
    simp only [respelled]
    split_ifs <;> rfl

theorem rational_respelled (n : Number) : n.respelled.rational = n.rational := by
  cases n with
  | whole => rfl
  | decimal negative significand exponent =>
    simp only [respelled]
    split_ifs with h
    · rcases eq_or_ne significand 0 with rfl | hsignificand
      · simp [rational]
      · rw [pointOf, if_neg hsignificand] at h ⊢
        obtain ⟨k, rfl⟩ : ∃ k : Nat, exponent = k := ⟨exponent.toNat, by omega⟩
        have hplaces : ((digits significand).length + (k : Int) -
            (digits significand).length + 1).toNat = k + 1 := by
          omega
        simp only [rational, hplaces]
        push_cast
        rw [zpow_neg_one, pow_succ, zpow_natCast, mul_assoc, mul_inv_cancel_right₀ (by norm_num)]
    · rfl

theorem toBinary64?_respelled (n : Number) : n.respelled.toBinary64? = n.toBinary64? :=
  toBinary64?_congr n.negative_respelled n.rational_respelled

end Number

end Json
end TexturePack
