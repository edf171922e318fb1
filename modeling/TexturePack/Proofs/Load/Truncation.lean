import Mathlib
import TexturePack.Proofs.Load.Pyramid

/-! A load beside a load of only the first candidates. What the candidates behind those do comes
behind the levels that are there: the walk over all of them is the shorter walk, or goes on where
the shorter one ends. -/
namespace TexturePack

/-- The request for the first `j` candidates only. -/
def Request.truncate (r : Request) (j : Nat) : Request := { r with names := r.names.take j }

namespace Chain

variable {i : Nat}

/-- A walk asks the request for sizes and formats, and goes by the names that it is given. -/
theorem walk_truncate (c : Chain) (src : Sources) (r : Request) (j : Nat) (cut : Option Nat)
    (i : Nat) (w : Walk) (names : List String) :
    c.walk src (r.truncate j) cut i w names = c.walk src r cut i w names := by
  induction names generalizing c i w with
  | nil => rfl
  | cons name names ih =>
    have hsame : ∀ (d : Chain) (file : FileReference),
        d.loadCandidate src (r.truncate j) i file = d.loadCandidate src r i file :=
      fun _ _ => rfl
    simp only [walk, hsame, ih]

/-- A walk with more candidates ends where the walk without them does, or that walk has a level
for each of its candidates and is taken up behind them. -/
theorem walk_append (src : Sources) (r : Request) (cut : Option Nat) {c : Chain}
    (hlen : c.levels.length = i) (w : Walk) (names rest : List String) :
    c.walk src r cut i w (names ++ rest) = c.walk src r cut i w names ∨
      ∃ d u, c.walk src r cut i w names = (d, .ok u) ∧ d.levels.length = i + names.length ∧
        c.walk src r cut i w (names ++ rest) = d.walk src r cut (i + names.length) u rest := by
  induction names generalizing c i w with
  | nil => exact .inr ⟨c, w, rfl, hlen, rfl⟩
  | cons name names ih =>
    rw [List.cons_append]
    rcases walk_step c src r cut i w name names with
      ⟨hcut, h⟩ | ⟨hcut, hname, h⟩ | ⟨hcut, hname, hlookup, h⟩ | ⟨hcut, hname, file, hlookup, -⟩
    · left
      rw [h, walk, if_pos hcut]
    · left
      rw [h, walk, if_neg hcut, if_pos hname]
    · left
      simp only [walk, if_neg hcut, hname, hlookup]
    rw [walk_lookup hcut hname hlookup, walk_lookup hcut hname hlookup]
    rcases hl : (c.note [.lookedUp name true]).loadCandidate src r i file with
      ⟨c₁, e | ⟨result, found⟩⟩
    · exact .inl rfl
    -- Only an image hands the walk on, and it is one level; else the rest is never looked at.
    by_cases hfailed : result = .failed
    · subst hfailed
      exact .inl rfl
    rcases hf : c₁.foreign i w.format found with _ | _
    case true =>
      left
      rw [pursue_foreign hfailed hf, pursue_foreign hfailed hf]
    cases result with
    | failed => exact absurd rfl hfailed
    | finished =>
      left
      rw [pursue_finished hf, pursue_finished hf]
    | more =>
      rw [pursue_more hf, pursue_more hf, List.length_cons, Nat.add_comm names.length,
        ← Nat.add_assoc]
      exact ih (length_of_more hlen hl) _

end Chain

open Chain

/-- The first candidates decide on how a load begins, whether it is their own load or not. -/
theorem firstResult_truncate {r : Request} {j : Nat} (h : (r.truncate j).names ≠ []) :
    firstResult (r.truncate j) = firstResult r := by
  have hnames : r.names ≠ [] := by
    intro hnil
    exact h (by rw [Request.truncate, hnil, List.take_nil])
  rw [firstResult, firstResult, if_neg (by simpa using h), if_neg (by simpa using hnames)]

/-- A load is the load of its first candidates, or that load has a level for each of them and the
walk goes on behind them. -/
theorem loadLevels_truncate (src : Sources) (r : Request) (cut : Option Nat) (entry : LevelData)
    (j : Nat) :
    loadLevels src r cut entry = loadLevels src (r.truncate j) cut entry ∨
      ∃ d u v, (start entry).walk src (r.truncate j) cut 0
            ⟨.undefined, firstResult (r.truncate j), false⟩
            ((r.truncate j).names.take maxLevels) = (d, .ok u) ∧
        d.levels.length = ((r.truncate j).names.take maxLevels).length ∧ v.format = u.format ∧
        (start entry).walk src r cut 0 ⟨.undefined, firstResult r, false⟩
            (r.names.take maxLevels) =
          d.walk src r cut d.levels.length v ((r.names.take maxLevels).drop j) := by
  simp only [walk_truncate]
  have hnames : (r.truncate j).names.take maxLevels ++ (r.names.take maxLevels).drop j =
      r.names.take maxLevels := by
    rw [Request.truncate, List.take_take, Nat.min_comm, ← List.take_take, List.take_append_drop]
  by_cases hnone : (r.truncate j).names = []
  · rw [hnone, List.take_nil, List.nil_append] at hnames
    rw [hnone, List.take_nil, hnames]
    exact .inr ⟨_, _, ⟨.undefined, firstResult r, false⟩, rfl, rfl, rfl, rfl⟩
  rcases walk_append src r cut (c := start entry) (i := 0) rfl
      ⟨.undefined, firstResult r, false⟩ ((r.truncate j).names.take maxLevels)
      ((r.names.take maxLevels).drop j) with hsame | ⟨d, u, hpart, hlen, hwhole⟩
  · left
    rw [hnames] at hsame
    simp only [loadLevels, walk_truncate, firstResult_truncate hnone, hsame]
  · right
    rw [hnames, ← hlen] at hwhole
    rw [firstResult_truncate hnone]
    exact ⟨d, u, u, hpart, hlen.trans (Nat.zero_add _), rfl, hwhole⟩

/-- Later candidates do not disturb the levels before them. A load crashes if the load of its first
candidates does. If that one ends, all its levels keep their bytes, and they are the first levels
of the whole load, in the same format, unless this crashes behind them. It can only go on, or
crash, behind a chain with one level for each of the first candidates: behind any other one the
two loads do the same. -/
theorem load_extends_truncated (src : Sources) (r : Request) (cut : Option Nat) (entry : LevelData)
    (j : Nat) :
    let part := loadLevels src (r.truncate j) cut entry
    let whole := loadLevels src r cut entry
    (part.outcome = none → whole.outcome = none) ∧
      ∀ o, part.outcome = some o →
        (∀ k < o.levels.length, whole.entry.bytes k = part.entry.bytes k) ∧
        (∀ o', whole.outcome = some o' →
          o.levels <+: o'.levels ∧ (o.levels ≠ [] → o'.format = o.format)) ∧
        (o.levels.length ≠ ((r.truncate j).names.take maxLevels).length → whole = part) := by
  intro part whole
  rcases loadLevels_truncate src r cut entry j with hsame | ⟨d, u, v, hpart, hlen, hformat, hwhole⟩
  · have hsame : whole = part := hsame
    rw [hsame]
    refine ⟨id, fun o ho => ⟨fun _ _ => rfl, fun o' ho' => ?_, fun _ => rfl⟩⟩
    obtain rfl := Option.some.inj (ho.symm.trans ho')
    exact ⟨List.prefix_rfl, fun _ => rfl⟩
  have ho : part.outcome = some (d.outcome u) := (loadLevels_of_walk hpart).1
  rw [ho]
  refine ⟨by simp, ?_⟩
  rintro _ ⟨rfl⟩
  refine ⟨?_, ?_, fun hne => absurd hlen hne⟩
  · intro k hk
    rw [loadLevels_bytes, loadLevels_bytes, hpart, hwhole]
    exact walk_bytes_of_lt src r cut rfl hk v _
  · intro o' ho'
    obtain ⟨c, w, hw, rfl, -⟩ := walk_of_loadLevels ho'
    rw [hwhole] at hw
    have hbegins : d.levels <+: c.levels := walk_prefix rfl hw
    refine ⟨hbegins, fun hlevels => ?_⟩
    have hlevels : d.levels ≠ [] := hlevels
    have hsome : c.levels ≠ [] := fun hnil => hlevels (List.prefix_nil.mp (hnil ▸ hbegins))
    rw [outcome, outcome, if_neg (by simpa using hsome), if_neg (by simpa using hlevels),
      walk_format (List.length_pos_of_ne_nil hlevels) hw, hformat]

theorem load_extends_truncated_twoImages :
    let whole := loadLevels twoImages twoLevels none .empty
    whole.entry.bytes 0 = Bytes.zeros 16 ∧ ∀ o', whole.outcome = some o' →
      [⟨2, 2, some ⟨"a.zim", 0⟩⟩] <+: o'.levels ∧ o'.format = .rgba8 := by
  have hpart : (loadLevels twoImages (twoLevels.truncate 1) none .empty).outcome =
      some ⟨[⟨2, 2, some ⟨"a.zim", 0⟩⟩], .rgba8, .transparent, .more, false⟩ := by
    decide +kernel
  have hbytes : (loadLevels twoImages (twoLevels.truncate 1) none .empty).entry.bytes 0 =
      Bytes.zeros 16 := by
    decide +kernel
  obtain ⟨hkept, hlater, -⟩ :=
    (load_extends_truncated twoImages twoLevels none .empty 1).2 _ hpart
  refine ⟨(hkept 0 Nat.zero_lt_one).trans hbytes, fun o' ho' => ?_⟩
  obtain ⟨hbegins, hformat⟩ := hlater o' ho'
  exact ⟨hbegins, hformat (List.cons_ne_nil _ _)⟩

/-- A PNG file of 4x4 pixels whose palette ends within a colour. -/
def brokenPalette : Bytes :=
  Png.signature ++
    [0, 0, 0, 13, 73, 72, 68, 82, 0, 0, 0, 4, 0, 0, 0, 4, 8, 3, 0, 0, 0, 158, 47, 110, 76,
      0, 0, 0, 4, 80, 76, 84, 69, 9, 14, 19, 24, 177, 182, 21, 62,
      0, 0, 0, 11, 73, 68, 65, 84, 120, 156, 99, 96, 192, 4, 0, 0, 20, 0, 1, 125, 254, 30, 238,
      0, 0, 0, 0, 73, 69, 78, 68, 174, 66, 96, 130]

/-- An image, and a file that crashes the decoder of the level behind it. -/
def imageThenCrash : Sources where
  files := (Files.Memory.mk
    [("a.zim", some (.ofBytes (square 8))), ("p.png", some (.ofBytes brokenPalette))]).fileSystem
  transcoder := none

def imageAndCrash : Request := .unscaled ["a.zim", "p.png"] .none ""

/-- The level of the first file is lost to a crash behind it. -/
theorem later_crash_takes_all :
    (loadLevels imageThenCrash (imageAndCrash.truncate 1) none .empty).count = some 1 ∧
      (loadLevels imageThenCrash imageAndCrash none .empty).count = none := by
  decide +kernel

end TexturePack
