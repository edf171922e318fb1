import Mathlib
import TexturePack.Files.Directory

/-! Names and their parts. A name can be put together again from its parts, and looking a name
up takes it in its normal form. -/
namespace TexturePack.Files

theorem segments_separator (cs : List Char) : segments ('/' :: cs) = [] :: segments cs := rfl

theorem segments_ne_nil (cs : List Char) : segments cs ≠ [] := by
  induction cs using segments.induct with
  | case1 => simp [segments]
  | case2 cs ih => simp [segments]
  | case3 c cs hc h ih => exact absurd h ih
  | case4 c cs hc s ss h ih => simp [segments, h]

theorem segments_cons {c : Char} (hc : c ≠ '/') (cs : List Char) :
    ∃ s ss, segments cs = s :: ss ∧ segments (c :: cs) = (c :: s) :: ss := by
  rcases hs : segments cs with _ | ⟨s, ss⟩
  · exact absurd hs (segments_ne_nil cs)
  · refine ⟨s, ss, rfl, ?_⟩
    rw [segments, hs]
    exact fun h => hc h

/-- Parts joined by separators. -/
def spelling (path : Path) : List Char := List.intercalate ['/'] path

theorem spelling_segments (cs : List Char) : spelling (segments cs) = cs := by
  induction cs with
  | nil => rfl
  | cons c cs ih =>
    by_cases hc : c = '/'
    · subst hc
      rcases hs : segments cs with _ | ⟨s, ss⟩
      · exact absurd hs (segments_ne_nil cs)
      · rw [hs] at ih
        rw [segments_separator, hs, ← ih]
        simp [spelling, List.intercalate_cons_cons]
    · obtain ⟨s, ss, hs, hcs⟩ := segments_cons hc cs
      rw [hs] at ih
      rw [hcs, ← ih]
      cases ss <;> simp [spelling, List.intercalate_cons_cons]

theorem segments_injective : Function.Injective segments :=
  Function.LeftInverse.injective spelling_segments

theorem segments_concat_separator (cs : List Char) :
    segments (cs ++ ['/']) = segments cs ++ [[]] := by
  induction cs with
  | nil => rfl
  | cons c cs ih =>
    by_cases hc : c = '/'
    · subst hc
      rw [List.cons_append, segments_separator, segments_separator, ih, List.cons_append]
    · obtain ⟨s, ss, hs, hcs⟩ := segments_cons hc cs
      obtain ⟨s', ss', hs', hcs'⟩ := segments_cons hc (cs ++ ['/'])
      rw [ih, hs, List.cons_append, List.cons.injEq] at hs'
      rw [List.cons_append, hcs', hcs, ← hs'.1, ← hs'.2, List.cons_append]

/-- What is known of a name in its normal form. -/
structure Normal (cs : List Char) : Prop where
  nonempty : cs ≠ []
  relative : cs.head? ≠ some '/'
  inside : ['.', '.'] ∉ segments cs
  forward : '\\' ∉ cs

theorem forward_ne (c : Char) : forward c ≠ '\\' := by
  unfold forward
  split
  · decide
  · assumption

theorem normalizeChars_forward (cs : List Char) : '\\' ∉ normalizeChars cs := by
  intro h
  have hmem := (List.dropWhile_sublist isSeparator).subset h
  obtain ⟨c, -, hc⟩ := List.mem_map.mp hmem
  exact forward_ne c hc

theorem normalizeChars_relative (cs : List Char) : (normalizeChars cs).head? ≠ some '/' := by
  intro h
  have hnot := List.head?_dropWhile_not isSeparator (cs.map forward)
  rw [normalizeChars] at h
  rw [h] at hnot
  simp [isSeparator] at hnot

/-- A name in its normal form stays as it is. -/
theorem normalizeChars_of_normal {cs : List Char} (h : Normal cs) : normalizeChars cs = cs := by
  have hmap : cs.map TexturePack.Files.forward = cs :=
    (List.map_congr_left fun c hc => if_neg fun hb : c = '\\' => h.forward (hb ▸ hc)).trans
      (List.map_id cs)
  rw [normalizeChars, hmap]
  rcases cs with _ | ⟨c, cs⟩
  · rfl
  · have hc : c ≠ '/' := fun hc => h.relative (by simp [hc])
    simp [isSeparator, hc]

theorem escaping_iff {cs : List Char} : escaping cs = true ↔ ['.', '.'] ∈ segments cs := by
  simp [escaping]

theorem lookupName?_eq_some_iff {s name : String} :
    lookupName? s = some name ↔ name.toList = normalizeChars s.toList ∧ Normal name.toList := by
  simp only [lookupName?, escaping_iff]
  constructor
  · intro h
    split at h
    · cases h
    case isFalse hbad =>
      obtain rfl := Option.some.inj h
      push Not at hbad
      rw [String.toList_ofList]
      exact ⟨rfl, by simpa using hbad.1, normalizeChars_relative _, hbad.2,
        normalizeChars_forward _⟩
  · rintro ⟨hname, h⟩
    rw [← hname, if_neg, String.ofList_toList]
    exact not_or.mpr ⟨by simpa using h.nonempty, h.inside⟩

/-- A name in its normal form is looked up as it is. -/
theorem lookupName?_of_normal {name : String} (h : Normal name.toList) :
    lookupName? name = some name :=
  lookupName?_eq_some_iff.mpr ⟨(normalizeChars_of_normal h).symm, h⟩

end TexturePack.Files
