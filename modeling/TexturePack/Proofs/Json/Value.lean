import Mathlib
import TexturePack.Proofs.Json.Number
import TexturePack.Proofs.Json.Quotation

/-! JSON values. What is written for a value over several lines is read as that value, with its
numbers respelled, on whatever depth it was written and whatever comes after it. -/
namespace TexturePack.Json

variable {c : Char} {cs rest : List Char} {fuel : Nat} {v : Value}

theorem skipBlank_of_not_blank (h : isBlank c = false) (cs : List Char) :
    skipBlank (c :: cs) = c :: cs := by
  simp [skipBlank, h]

theorem skipBlank_skipBlank (cs : List Char) : skipBlank (skipBlank cs) = skipBlank cs :=
  List.dropWhile_idempotent _ cs

theorem skipBlank_cons_of_blank (h : isBlank c = true) (cs : List Char) :
    skipBlank (c :: cs) = skipBlank cs := by
  simp [skipBlank, h]

theorem skipBlank_indentation (depth : Nat) (cs : List Char) :
    skipBlank (indentation depth ++ cs) = skipBlank cs :=
  List.dropWhile_append_of_pos fun c h => by rw [List.eq_of_mem_replicate h]; rfl

/-- Blanks in front of a value mean nothing. -/
theorem value?_congr (h : skipBlank cs = skipBlank rest) (fuel : Nat) :
    value? fuel cs = value? fuel rest := by
  cases fuel with
  | zero => rfl
  | succ fuel => rw [value?, value?, h]

theorem items?_congr (h : skipBlank cs = skipBlank rest) (fuel : Nat) :
    items? fuel cs = items? fuel rest := by
  cases fuel with
  | zero => rfl
  | succ fuel => rw [items?, items?, value?_congr h]

theorem members?_congr (h : skipBlank cs = skipBlank rest) (fuel : Nat) :
    members? fuel cs = members? fuel rest := by
  cases fuel with
  | zero => rfl
  | succ fuel => rw [members?, members?, h]

theorem value?_quote (fuel : Nat) (cs : List Char) :
    value? (fuel + 1) ('"' :: cs) = (string? cs).map fun r => (.string r.1, r.2) := by
  cases h : string? cs <;> simp [value?, skipBlank, isBlank, h]

theorem value?_number {n : Number} (h : number? cs = some (n, rest)) :
    value? (fuel + 1) cs = some (.number n, rest) := by
  obtain ⟨c, cs, rfl, hc⟩ := head_of_number? h
  have hother {d : Char} (hd : Text.isDigit d = false) (hminus : d ≠ '-') : c ≠ d := by
    rintro rfl
    rcases hc with hc | hc
    · exact absurd (hd.symm.trans hc) Bool.false_ne_true
    · exact hminus hc
  have hblank : isBlank c = false := by
    simp [isBlank, hother (d := ' '), hother (d := '\n'), hother (d := '\t'),
      hother (d := '\x0d'), Text.isDigit]
  rw [value?, skipBlank_of_not_blank hblank]
  split <;> simp_all [Text.isDigit]

/-- A closing bracket is no value. -/
theorem value?_bracket (fuel : Nat) (cs : List Char) : value? fuel (']' :: cs) = none := by
  cases fuel with
  | zero => rfl
  | succ fuel => rfl

theorem value?_indentation {text : List Char} (depth : Nat)
    (h : value? fuel (text ++ rest) = some (v, rest)) :
    value? fuel (indentation depth ++ text ++ rest) = some (v, rest) := by
  rw [List.append_assoc, value?_congr (skipBlank_indentation ..), h]

/-- The line of the last item. -/
theorem items?_last {text after : List Char} (depth : Nat)
    (hv : value? fuel (text ++ rest) = some (v, rest)) (hrest : skipBlank rest = ']' :: after) :
    items? (fuel + 1) (indentation depth ++ text ++ rest) = some ([v], after) := by
  rw [items?, value?_indentation depth hv]
  simp [hrest]

/-- The line of an item before others. -/
theorem items?_more {text more after : List Char} {items : List Value} (depth : Nat)
    (hv : value? fuel (text ++ ',' :: '\n' :: more) = some (v, ',' :: '\n' :: more))
    (hmore : items? fuel more = some (items, after)) :
    items? (fuel + 1) (indentation depth ++ text ++ ',' :: '\n' :: more) =
      some (v :: items, after) := by
  have hnext : items? fuel ('\n' :: more) = some (items, after) :=
    (items?_congr (skipBlank_cons_of_blank rfl more) fuel).trans hmore
  rw [items?, value?_indentation depth hv]
  simp [skipBlank_of_not_blank, isBlank, hnext]

theorem value?_array {items : List Value} (h : items? fuel cs = some (items, rest)) :
    value? (fuel + 1) ('[' :: cs) = some (.array items, rest) := by
  have hbracket (after : List Char) : skipBlank cs ≠ ']' :: after := by
    intro hcs
    cases fuel with
    | zero => cases h
    | succ fuel =>
      rw [items?, ← value?_congr (skipBlank_skipBlank cs), hcs, value?_bracket] at h
      cases h
  have hitems := (items?_congr (skipBlank_skipBlank cs) fuel).trans h
  rw [value?, skipBlank_of_not_blank rfl]
  -- The text does not close the array at once, so its items are read.
  simp [hitems]

/-- A member up to its value. -/
theorem skipBlank_member (depth : Nat) (key : String) (text : List Char) :
    skipBlank (indentation depth ++ quoted key ++ ':' :: ' ' :: text) =
      '"' :: (key.toList.flatMap escaped ++ '"' :: ':' :: ' ' :: text) := by
  rw [List.append_assoc, skipBlank_indentation]
  simp [quoted, skipBlank_of_not_blank, isBlank]

theorem members?_last {text after : List Char} (depth : Nat) (key : String)
    (hv : value? fuel (text ++ rest) = some (v, rest)) (hrest : skipBlank rest = '}' :: after) :
    members? (fuel + 1) (indentation depth ++ quoted key ++ ':' :: ' ' :: (text ++ rest)) =
      some ([(some key, v)], after) := by
  have hvalue : value? fuel (' ' :: (text ++ rest)) = some (v, rest) :=
    (value?_congr (skipBlank_cons_of_blank rfl _) fuel).trans hv
  rw [members?, skipBlank_member]
  simp [string?_flatMap, skipBlank_of_not_blank, isBlank, hvalue, hrest]

theorem members?_more {text more after : List Char} {members : List (Str × Value)} (depth : Nat)
    (key : String) (hv : value? fuel (text ++ ',' :: '\n' :: more) = some (v, ',' :: '\n' :: more))
    (hmore : members? fuel more = some (members, after)) :
    members? (fuel + 1) (indentation depth ++ quoted key ++
      ':' :: ' ' :: (text ++ ',' :: '\n' :: more)) = some ((some key, v) :: members, after) := by
  have hvalue := (value?_congr (skipBlank_cons_of_blank (c := ' ') rfl _) fuel).trans hv
  have hnext : members? fuel ('\n' :: more) = some (members, after) :=
    (members?_congr (skipBlank_cons_of_blank rfl more) fuel).trans hmore
  rw [members?, skipBlank_member]
  simp [string?_flatMap, skipBlank_of_not_blank, isBlank, hvalue, hnext]

theorem value?_object {members : List (Str × Value)}
    (h : members? fuel cs = some (members, rest)) :
    value? (fuel + 1) ('{' :: cs) = some (.object members, rest) := by
  have hbrace (after : List Char) : skipBlank cs ≠ '}' :: after := by
    intro hcs
    cases fuel with
    | zero => cases h
    | succ fuel =>
      rw [members?, hcs] at h
      cases h
  have hmembers := (members?_congr (skipBlank_skipBlank cs) fuel).trans h
  rw [value?, skipBlank_of_not_blank rfl]
  -- The text does not close the object at once, so its members are read.
  simp [hmembers]

mutual

/-- The value that is read for a written one. A string without a text is written as an empty
one. -/
def Value.respelled : Value → Value
  | .null => .null
  | .bool b => .bool b
  | .number n => .number n.respelled
  | .string s => .string (some (s.getD ""))
  | .array items => .array (respelledItems items)
  | .object members => .object (respelledMembers members)

def respelledItems : List Value → List Value
  | [] => []
  | v :: vs => v.respelled :: respelledItems vs

def respelledMembers : List (Str × Value) → List (Str × Value)
  | [] => []
  | (key, v) :: ms => (some (key.getD ""), v.respelled) :: respelledMembers ms

end

theorem value?_string (s : String) :
    value? (fuel + 1) (quoted s ++ rest) = some (.string (some s), rest) := by
  have hquoted : quoted s ++ rest = '"' :: (s.toList.flatMap escaped ++ '"' :: rest) := by
    simp [quoted]
  rw [hquoted, value?_quote, string?_flatMap]
  rfl

theorem write_ne_nil (v : Value) (depth : Nat) : v.write depth ≠ [] := by
  cases v with
  | null => exact List.cons_ne_nil _ _
  | bool b => cases b <;> exact List.cons_ne_nil _ _
  | string s => exact List.cons_ne_nil _ _
  | number n =>
    intro h
    have hread := n.number?_write ends_nil
    rw [← Value.write, h] at hread
    cases hread
  | array items => cases items <;> exact List.cons_ne_nil _ _
  | object members => cases members <;> exact List.cons_ne_nil _ _

/-- The line of a closing bracket. -/
def closing (depth : Nat) (c : Char) (rest : List Char) : List Char :=
  '\n' :: (indentation depth ++ c :: rest)

theorem skipBlank_closing (depth : Nat) (h : isBlank c = false) (rest : List Char) :
    skipBlank (closing depth c rest) = c :: rest := by
  rw [closing, skipBlank_cons_of_blank rfl, skipBlank_indentation, skipBlank_of_not_blank h]

variable {lines : List (List Char)}

theorem enclose_append (h : lines ≠ []) (opening c : Char) (depth : Nat) (rest : List Char) :
    enclose opening c depth lines ++ rest =
      opening :: '\n' :: (joinLines lines ++ closing depth c rest) := by
  simp [enclose, h, closing]

theorem length_joinLines_lt (h : lines ≠ []) (opening c : Char) (depth : Nat) :
    (joinLines lines).length + 1 < (enclose opening c depth lines).length := by
  simp only [enclose, List.isEmpty_iff, if_neg h, List.length_cons, List.length_append]
  omega

theorem joinLines_append (h : lines ≠ []) (line rest : List Char) :
    joinLines (line :: lines) ++ rest = line ++ ',' :: '\n' :: (joinLines lines ++ rest) := by
  obtain ⟨next, lines, rfl⟩ := List.exists_cons_of_ne_nil h
  simp [joinLines]

theorem length_joinLines_cons (h : lines ≠ []) (line : List Char) :
    (joinLines (line :: lines)).length = line.length + (joinLines lines).length + 2 := by
  have hlength := congrArg List.length (joinLines_append h line [])
  simp only [List.append_nil, List.length_append, List.length_cons] at hlength
  omega

-- By induction on the value. Each call of a reader has a character of the text to itself, so the
-- length of the text is fuel enough; what comes after it only has to end a number.
mutual

/-- What is written for a value is read to its end, as the value respelled. -/
theorem value?_write : ∀ (v : Value) (depth fuel : Nat) (rest : List Char),
    (v.write depth).length ≤ fuel → Ends rest →
      value? fuel (v.write depth ++ rest) = some (v.respelled, rest)
  | v, depth, 0, rest, hfuel, hrest =>
    absurd (List.length_eq_zero_iff.mp (Nat.le_zero.mp hfuel)) (write_ne_nil v depth)
  | .null, depth, fuel + 1, rest, hfuel, hrest => rfl
  | .bool true, depth, fuel + 1, rest, hfuel, hrest => rfl
  | .bool false, depth, fuel + 1, rest, hfuel, hrest => rfl
  | .number n, depth, fuel + 1, rest, hfuel, hrest => value?_number (n.number?_write hrest)
  | .string s, depth, fuel + 1, rest, hfuel, hrest => value?_string _
  | .array [], depth, fuel + 1, rest, hfuel, hrest => rfl
  | .array (v :: vs), depth, fuel + 1, rest, hfuel, hrest => by
    have hlines : itemLines (depth + 1) (v :: vs) ≠ [] := List.cons_ne_nil _ _
    have hlength := length_joinLines_lt hlines '[' ']' depth
    rw [Value.write] at hfuel ⊢
    rw [enclose_append hlines]
    refine value?_array ?_
    rw [items?_congr (skipBlank_cons_of_blank rfl _)]
    exact items?_write (v :: vs) (List.cons_ne_nil _ _) (depth + 1) fuel _ rest (by omega)
      (skipBlank_closing depth rfl rest) (ends_cons (by decide) _)
  | .object [], depth, fuel + 1, rest, hfuel, hrest => rfl
  | .object (m :: ms), depth, fuel + 1, rest, hfuel, hrest => by
    have hlines : memberLines (depth + 1) (m :: ms) ≠ [] := List.cons_ne_nil _ _
    have hlength := length_joinLines_lt hlines '{' '}' depth
    rw [Value.write] at hfuel ⊢
    rw [enclose_append hlines]
    refine value?_object ?_
    rw [members?_congr (skipBlank_cons_of_blank rfl _)]
    exact members?_write (m :: ms) (List.cons_ne_nil _ _) (depth + 1) fuel _ rest (by omega)
      (skipBlank_closing depth rfl rest) (ends_cons (by decide) _)

theorem items?_write : ∀ (vs : List Value), vs ≠ [] → ∀ (depth fuel : Nat) (rest after : List Char),
    (joinLines (itemLines depth vs)).length < fuel → skipBlank rest = ']' :: after → Ends rest →
      items? fuel (joinLines (itemLines depth vs) ++ rest) = some (respelledItems vs, after)
  | [], hvs, _, _, _, _, _, _, _ => absurd rfl hvs
  | vs, hvs, _, 0, _, _, hfuel, _, _ => absurd hfuel (Nat.not_lt_zero _)
  | [v], _, depth, fuel + 1, rest, after, hfuel, hrest, hends => by
    simp only [itemLines, joinLines, List.length_append] at hfuel ⊢
    exact items?_last depth (value?_write v depth fuel rest (by omega) hends) hrest
  | v :: w :: vs, _, depth, fuel + 1, rest, after, hfuel, hrest, hends => by
    have hlines : itemLines depth (w :: vs) ≠ [] := List.cons_ne_nil _ _
    rw [itemLines, length_joinLines_cons hlines, List.length_append] at hfuel
    rw [itemLines, joinLines_append hlines]
    exact items?_more depth (value?_write v depth fuel _ (by omega) (ends_cons (by decide) _))
      (items?_write (w :: vs) (List.cons_ne_nil _ _) depth fuel rest after (by omega) hrest hends)

theorem members?_write : ∀ (ms : List (Str × Value)), ms ≠ [] →
    ∀ (depth fuel : Nat) (rest after : List Char),
      (joinLines (memberLines depth ms)).length < fuel → skipBlank rest = '}' :: after →
        Ends rest → members? fuel (joinLines (memberLines depth ms) ++ rest) =
          some (respelledMembers ms, after)
  | [], hms, _, _, _, _, _, _, _ => absurd rfl hms
  | ms, hms, _, 0, _, _, hfuel, _, _ => absurd hfuel (Nat.not_lt_zero _)
  | [(key, v)], _, depth, fuel + 1, rest, after, hfuel, hrest, hends => by
    simp only [memberLines, joinLines, List.length_append, List.length_cons] at hfuel ⊢
    rw [List.append_assoc]
    exact members?_last depth _ (value?_write v depth fuel rest (by omega) hends) hrest
  | (key, v) :: m :: ms, _, depth, fuel + 1, rest, after, hfuel, hrest, hends => by
    have hlines : memberLines depth (m :: ms) ≠ [] := List.cons_ne_nil _ _
    rw [memberLines, length_joinLines_cons hlines, List.length_append, List.length_cons,
      List.length_cons] at hfuel
    rw [memberLines, joinLines_append hlines, List.append_assoc]
    exact members?_more depth _ (value?_write v depth fuel _ (by omega) (ends_cons (by decide) _))
      (members?_write (m :: ms) (List.cons_ne_nil _ _) depth fuel rest after (by omega) hrest hends)

end

/-- What is written for a value as a whole text is read as the value respelled. -/
theorem parse?_text (v : Value) : parse? v.text = some v.respelled := by
  have htext : v.text.toList = v.write 0 := String.toList_ofList
  have hread := value?_write v 0 (2 * (v.write 0).length + 2) [] (by omega) ends_nil
  rw [List.append_nil] at hread
  rw [parse?, htext, hread]
  rfl

end TexturePack.Json
