import Mathlib
import TexturePack.Proofs.Load.Scaling

/-! One candidate after the other. A candidate leaves the chain as it is, takes over
levels of the entry, or lays down its harvest; only an image lets the walk go on. -/
namespace TexturePack

def LevelRecord.size (l : LevelRecord) : Nat × Nat := (l.width, l.height)

/-- A candidate that is there and can be opened. -/
structure Sources.Opens (src : Sources) (name : String) (file : FileReference) (f : OpenFile) :
    Prop where
  named : name.isEmpty = false
  lookup : src.files.lookup name = some file
  openFile : src.files.openFile file = .ok f

/-- A source in which every name is the same file. -/
def Sources.single (content : Bytes) : Sources where
  files := ⟨fun name => some ⟨name, 0⟩, fun _ => .ok (.ofBytes content)⟩
  transcoder := some (.ofLevels (fun _ => true) fun _ _ _ _ => .filled fun _ => 0)

namespace LevelData

/-- How many levels are there one behind the other from `i` on, at most `count`. -/
def run (d : LevelData) (i : Nat) : Nat → Nat
  | 0 => 0
  | count + 1 => if d.has i then d.run (i + 1) count + 1 else 0

theorem has_of_lt_run {d : LevelData} {i count k : Nat} (h : k < d.run i count) :
    d.has (i + k) = true := by
  induction count generalizing i k with
  | zero => cases h
  | succ count ih =>
    rw [run] at h
    split at h
    next hi =>
      rcases k with _ | k
      · exact hi
      · rw [show i + (k + 1) = i + 1 + k by omega]
        exact ih (Nat.lt_of_succ_lt_succ h)
    · cases h

theorem run_eq {d : LevelData} {i count n : Nat} (hn : n ≤ count)
    (hhas : ∀ k < n, d.has (i + k) = true) (hend : d.has (i + n) = false) :
    d.run i count = n := by
  induction count generalizing i n with
  | zero => exact (Nat.le_zero.mp hn).symm
  | succ count ih =>
    rw [run]
    rcases n with _ | n
    · rw [if_neg (by rw [Bool.not_eq_true]; exact hend)]
    · have hi : d.has i = true := hhas 0 (Nat.succ_pos n)
      rw [if_pos hi]
      congr 1
      refine ih (Nat.le_of_succ_le_succ hn) ?_ ?_
      · intro k hk
        rw [show i + 1 + k = i + (k + 1) by omega]
        exact hhas (k + 1) (Nat.succ_lt_succ hk)
      · rw [show i + 1 + n = i + (n + 1) by omega]
        exact hend

end LevelData

namespace Chain

section keepFile

variable (c : Chain) (n : Nat) (file : FileReference)

@[simp] theorem keepFile_entry : (c.keepFile n file).entry = c.entry := by
  unfold keepFile
  split <;> rfl

@[simp] theorem keepFile_alpha : (c.keepFile n file).alpha = c.alpha := by
  unfold keepFile
  split <;> rfl

@[simp] theorem keepFile_reused : (c.keepFile n file).reused = c.reused := by
  unfold keepFile
  split <;> rfl

theorem keepFile_levels : (c.keepFile n file).levels =
    c.levels.modify n fun l => { l with file := some file } := by
  unfold keepFile
  rcases h : c.levels[n]? with _ | l
  · rw [List.modify_eq_self (List.getElem?_eq_none_iff.mp h)]
    rfl
  · simp only [List.modify_eq_set_getElem?, h]
    rfl

@[simp] theorem keepFile_length : (c.keepFile n file).levels.length = c.levels.length := by
  rw [keepFile_levels, List.length_modify]

@[simp] theorem keepFile_sizes : (c.keepFile n file).levels.map LevelRecord.size =
    c.levels.map LevelRecord.size := by
  rw [keepFile_levels]
  apply List.ext_getElem?
  intro k
  rw [List.getElem?_map, List.getElem?_map, List.getElem?_modify]
  rcases c.levels[k]? with _ | l
  · rfl
  · simp only [Option.map_eq_map, Option.map_some]
    split <;> rfl

end keepFile

/-- Equal in all but what has been done to files and asked of the transcoder. -/
structure Alike (c c' : Chain) : Prop where
  entry : c.entry = c'.entry
  levels : c.levels = c'.levels
  alpha : c.alpha = c'.alpha
  reused : c.reused = c'.reused

theorem alike_note (c : Chain) (events : List FileEvent) : (c.note events).Alike c :=
  ⟨rfl, rfl, rfl, rfl⟩

/-- A candidate that brought no level gives its file back. -/
theorem alike_keepFile {c : Chain} {n : Nat} (h : c.levels.length ≤ n) (file : FileReference) :
    (c.keepFile n file).Alike c :=
  ⟨keepFile_entry .., by rw [keepFile_levels, List.modify_eq_self h], keepFile_alpha ..,
    keepFile_reused ..⟩

theorem Alike.trans {c c' c'' : Chain} (h : c.Alike c') (h' : c'.Alike c'') : c.Alike c'' :=
  ⟨h.entry.trans h'.entry, h.levels.trans h'.levels, h.alpha.trans h'.alpha,
    h.reused.trans h'.reused⟩

theorem pushCached_eq (c : Chain) (i width height count : Nat) :
    c.pushCached i width height count =
      { c with
        levels := c.levels ++ (pyramid width height (c.entry.run i count)).map
          fun s => ⟨s.1, s.2, none⟩ } := by
  induction count generalizing c i width height with
  | zero => simp [pushCached, LevelData.run, pyramid]
  | succ count ih =>
    rw [pushCached, LevelData.run]
    split
    · rw [ih]
      simp [push, pyramid]
    · simp [pyramid]

/-- What the walk makes of a candidate that has been looked up. -/
def pursue (src : Sources) (r : Request) (cut : Option Nat) (i : Nat) (w : Walk)
    (names : List String) : Attempt → Chain × Decode Walk
  | (c, .error e) => (c, .error e)
  | (c, .ok (.failed, _)) => (c, .ok { w with result := .failed })
  | (c, .ok (result, found)) =>
      if c.foreign i w.format found then (c.discardFrom i, .ok { w with result := result })
      else
        let w := { w with format := if i = 0 then found else w.format, result := result }
        if result = .finished then (c, .ok w) else c.walk src r cut (i + 1) w names

/-- What becomes of the file of a candidate. -/
def shelve (i : Nat) (file : FileReference) : Attempt → Attempt
  | (c, .error e) => (c, .error e)
  | (c, .ok ended) => (c.keepFile i file, .ok ended)

/-- The chain when a candidate has been looked up and opened. -/
def opening (c : Chain) (name : String) (file : FileReference) : Chain :=
  (c.note [.lookedUp name true]).note [.opened file.name]

variable {src : Sources} {r : Request} {cut : Option Nat} {i : Nat} {name : String}
  {file : FileReference} {f : OpenFile}

theorem pursue_finished {c : Chain} {w : Walk} {found : PixelFormat}
    (hown : c.foreign i w.format found = false) (names : List String) :
    pursue src r cut i w names (c, .ok (.finished, found)) =
      (c, .ok ⟨if i = 0 then found else w.format, .finished, w.cancelled⟩) := by
  simp only [pursue]
  rw [hown]
  rfl

theorem pursue_more {c : Chain} {w : Walk} {found : PixelFormat}
    (hown : c.foreign i w.format found = false) (names : List String) :
    pursue src r cut i w names (c, .ok (.more, found)) =
      c.walk src r cut (i + 1) ⟨if i = 0 then found else w.format, .more, w.cancelled⟩ names := by
  simp only [pursue]
  rw [hown]
  rfl

theorem pursue_foreign {c : Chain} {w : Walk} {result : LoadResult} {found : PixelFormat}
    (hresult : result ≠ .failed) (hforeign : c.foreign i w.format found = true)
    (names : List String) :
    pursue src r cut i w names (c, .ok (result, found)) =
      (c.discardFrom i, .ok { w with result := result }) := by
  cases result with
  | failed => exact absurd rfl hresult
  | finished | more =>
    simp only [pursue]
    rw [hforeign]
    rfl

/-- The walk ends with a candidate, throws its levels away, or goes on behind it. -/
theorem pursue_cases {c c' : Chain} {w w' : Walk} {result : LoadResult} {found : PixelFormat}
    {names : List String}
    (h : pursue src r cut i w names (c, .ok (result, found)) = (c', .ok w')) :
    (result = .failed ∧ c' = c ∧ w' = { w with result := .failed }) ∨
      (result ≠ .failed ∧ c.foreign i w.format found = true ∧ c' = c.discardFrom i ∧
        w' = { w with result := result }) ∨
      c.foreign i w.format found = false ∧
        (result = .finished ∧ c' = c ∧
            w' = ⟨if i = 0 then found else w.format, .finished, w.cancelled⟩ ∨
          result = .more ∧ c.walk src r cut (i + 1)
            ⟨if i = 0 then found else w.format, .more, w.cancelled⟩ names = (c', .ok w')) := by
  by_cases hfailed : result = .failed
  · subst hfailed
    cases h
    exact .inl ⟨rfl, rfl, rfl⟩
  rcases hf : c.foreign i w.format found with _ | _
  case true =>
    rw [pursue_foreign hfailed hf] at h
    cases h
    exact .inr (.inl ⟨hfailed, rfl, rfl, rfl⟩)
  cases result with
  | failed => exact absurd rfl hfailed
  | finished =>
    rw [pursue_finished hf] at h
    cases h
    exact .inr (.inr ⟨rfl, .inl ⟨rfl, rfl, rfl⟩⟩)
  | more =>
    rw [pursue_more hf] at h
    exact .inr (.inr ⟨rfl, .inr ⟨rfl, h⟩⟩)

theorem alike_opening (c : Chain) (name : String) (file : FileReference) :
    (c.opening name file).Alike c := ⟨rfl, rfl, rfl, rfl⟩

/-- A file that is opened and brings nothing is given back. -/
theorem alike_shut {c : Chain} (hlen : c.levels.length = i) (name : String)
    (file : FileReference) : ((c.opening name file).keepFile i file).Alike c :=
  (alike_keepFile (c := c.opening name file) hlen.le file).trans (alike_opening c name file)

theorem walk_lookup {c : Chain} (hcut : cut ≠ some i) (hname : name.isEmpty = false)
    (hlookup : src.files.lookup name = some file) (w : Walk) (names : List String) :
    c.walk src r cut i w (name :: names) =
      pursue src r cut i w names ((c.note [.lookedUp name true]).loadCandidate src r i file) := by
  rw [walk, if_neg hcut, hname, hlookup]
  simp only [Bool.false_eq_true, if_false]
  rcases loadCandidate _ src r i file with ⟨c', e | ⟨_ | _ | _, found⟩⟩ <;> rfl

/-- A walk is cancelled, ends without a file, or pursues the candidate that it has looked up. -/
theorem walk_step (c : Chain) (src : Sources) (r : Request) (cut : Option Nat) (i : Nat) (w : Walk)
    (name : String) (names : List String) :
    (cut = some i ∧ c.walk src r cut i w (name :: names) = (c, .ok { w with cancelled := true })) ∨
      (cut ≠ some i ∧ name.isEmpty = true ∧ c.walk src r cut i w (name :: names) = (c, .ok w)) ∨
      (cut ≠ some i ∧ name.isEmpty = false ∧ src.files.lookup name = none ∧
        c.walk src r cut i w (name :: names) =
          (c.note [.lookedUp name false], .ok { w with result := .finished })) ∨
      cut ≠ some i ∧ name.isEmpty = false ∧ ∃ file, src.files.lookup name = some file ∧
        c.walk src r cut i w (name :: names) =
          pursue src r cut i w names
            ((c.note [.lookedUp name true]).loadCandidate src r i file) := by
  by_cases hcut : cut = some i
  · exact .inl ⟨hcut, by rw [walk, if_pos hcut]⟩
  rcases hname : name.isEmpty with _ | _
  case true => exact .inr (.inl ⟨hcut, rfl, by rw [walk, if_neg hcut, if_pos hname]⟩)
  rcases hlookup : src.files.lookup name with _ | file
  · refine .inr (.inr (.inl ⟨hcut, rfl, rfl, ?_⟩))
    simp only [walk, if_neg hcut, hname, hlookup]
    rfl
  · exact .inr (.inr (.inr ⟨hcut, rfl, file, rfl, walk_lookup hcut hname hlookup w names⟩))

theorem walk_opens {c : Chain} (hlen : c.levels.length = i) (hcut : cut ≠ some i)
    (ho : src.Opens name file f) (w : Walk) (names : List String) :
    c.walk src r cut i w (name :: names) =
      pursue src r cut i w names
        (shelve i file ((c.opening name file).loadFile src.transcoder r i f)) := by
  have hbefore : ((c.note [.lookedUp name true]).note [.opened file.name]).levels.length = i := hlen
  rw [walk_lookup hcut ho.named ho.lookup]
  simp only [loadCandidate, ho.openFile, hbefore, opening]
  congr 1
  rcases loadFile _ src.transcoder r i f with ⟨c', _ | _⟩ <;> rfl

/-- The chain when what a file yields has been laid down, and the file is kept or given
back. -/
def laid (c : Chain) (name : String) (file : FileReference) (i : Nat) (g : Harvest) : Chain :=
  ((c.opening name file).gather i g).keepFile i file

section laid

variable (c : Chain) (g : Harvest)

@[simp] theorem laid_entry :
    (c.laid name file i g).entry = c.entry.putAll i (g.layers.map Layer.bytes) := by
  rw [laid, keepFile_entry]
  rfl

@[simp] theorem laid_alpha : (c.laid name file i g).alpha = g.alpha.getD c.alpha := by
  rw [laid, keepFile_alpha]
  rfl

@[simp] theorem laid_reused : (c.laid name file i g).reused = c.reused := by
  rw [laid, keepFile_reused]
  rfl

theorem laid_levels : (c.laid name file i g).levels =
    (c.levels ++ g.layers.map Layer.record).modify i fun l => { l with file := some file } := by
  rw [laid, keepFile_levels]
  rfl

@[simp] theorem laid_length :
    (c.laid name file i g).levels.length = c.levels.length + g.layers.length := by
  rw [laid_levels, List.length_modify, List.length_append, List.length_map]

theorem laid_sizes : (c.laid name file i g).levels.map LevelRecord.size =
    c.levels.map LevelRecord.size ++ g.layers.map Layer.size := by
  have hlevels : ((c.opening name file).gather i g).levels =
      c.levels ++ g.layers.map Layer.record := rfl
  rw [laid, keepFile_sizes, hlevels, List.map_append, List.map_map]
  rfl

theorem discardFrom_laid_levels (hlen : c.levels.length = i) :
    ((c.laid name file i g).discardFrom i).levels = c.levels := by
  rw [discardFrom, laid_levels, List.modify_eq_take_drop, List.take_left' hlen,
    List.take_left' hlen]

end laid

theorem laid_levels_eq_nil_iff {c : Chain} {g : Harvest} :
    (c.laid name file i g).levels = [] ↔ c.levels = [] ∧ g.layers = [] := by
  rw [← List.length_eq_zero_iff, laid_length, Nat.add_eq_zero_iff, List.length_eq_zero_iff,
    List.length_eq_zero_iff]

/-- A level that is not in the entry comes from the file. -/
theorem walk_fresh {c : Chain} (hlen : c.levels.length = i) (hcut : cut ≠ some i)
    (ho : src.Opens name file f) (hnew : c.entry.has i = false) (w : Walk)
    (names : List String) :
    c.walk src r cut i w (name :: names) =
      match (c.harvest src.transcoder r i f).ending with
      | .error e => ((c.opening name file).gather i (c.harvest src.transcoder r i f), .error e)
      | .ok ended =>
          pursue src r cut i w names
            (c.laid name file i (c.harvest src.transcoder r i f), .ok ended) := by
  have hsame : (c.opening name file).harvest src.transcoder r i f =
      c.harvest src.transcoder r i f := rfl
  rw [walk_opens hlen hcut ho, loadFile_eq_gather (c := c.opening name file) hlen hnew, hsame]
  rcases (c.harvest src.transcoder r i f).ending with _ | _ <;> rfl

/-- A walk that does not crash lays down what a fresh candidate has. It ends there, throws the
level away, or goes on with the next candidate. -/
theorem walk_fresh_ok {c c' : Chain} (hlen : c.levels.length = i) (hcut : cut ≠ some i)
    (ho : src.Opens name file f) (hnew : c.entry.has i = false) {w w' : Walk}
    {names : List String} (hw : c.walk src r cut i w (name :: names) = (c', .ok w')) :
    ∃ result found, (c.harvest src.transcoder r i f).ending = .ok (result, found) ∧
      (c' = c.laid name file i (c.harvest src.transcoder r i f) ∨
        c' = (c.laid name file i (c.harvest src.transcoder r i f)).discardFrom i ∨
        result = .more ∧ ∃ u, (c.laid name file i (c.harvest src.transcoder r i f)).walk src r cut
          (i + 1) u names = (c', .ok w')) := by
  rw [walk_fresh hlen hcut ho hnew] at hw
  rcases he : (c.harvest src.transcoder r i f).ending with e | ⟨result, found⟩
  · simp [he] at hw
  simp only [he] at hw
  refine ⟨result, found, rfl, ?_⟩
  rcases pursue_cases hw with ⟨-, rfl, -⟩ | ⟨-, -, rfl, -⟩ | ⟨-, ⟨-, rfl, -⟩ | ⟨hmore, hnext⟩⟩
  · exact .inl rfl
  · exact .inr (.inl rfl)
  · exact .inl rfl
  · exact .inr (.inr ⟨hmore, _, hnext⟩)

/-- The chain with the levels that the entry has from `i` on. -/
def taken (c : Chain) (r : Request) (h : FileHeader) (i : Nat) : Chain :=
  let size := c.cachedSize r h i
  { c with
    levels := c.levels ++ (pyramid size.1 size.2 (c.entry.run i (maxLevels - i))).map
      fun s => ⟨s.1, s.2, none⟩
    alpha := c.entry.alpha
    reused := true }

/-- A level that is in the entry is not decoded, only the header of its file is read. -/
theorem walk_cached {c : Chain} (hlen : c.levels.length = i) (hcut : cut ≠ some i)
    (ho : src.Opens name file f) (hhas : c.entry.has i = true) {h : FileHeader}
    (hread : FileHeader.read f.identify.1 f.identify.2 r.support = .ok h) (w : Walk)
    (names : List String) :
    c.walk src r cut i w (name :: names) =
      pursue src r cut i w names
        (shelve i file ((c.opening name file).taken r h i, .ok (.finished, c.entry.format))) := by
  have hhas' : (c.opening name file).entry.has i = true := hhas
  rw [walk_opens hlen hcut ho]
  unfold loadFile
  simp only [hread, hhas', if_true, reuse, pushCached_eq]
  rfl

/-- What comes of an open file: nothing, the levels that the entry has, or what it yields. -/
theorem loadFile_cases {c c₁ : Chain} (hlen : c.levels.length = i) {t : Option Transcoder}
    {ending : Decode (LoadResult × PixelFormat)} (h : c.loadFile t r i f = (c₁, ending)) :
    (c₁ = c ∧ ∀ found, ending ≠ .ok (.more, found)) ∨
      (∃ header, c₁ = c.taken r header i ∧ ending = .ok (.finished, c.entry.format)) ∨
      c₁ = c.gather i (c.harvest t r i f) ∧ ending = (c.harvest t r i f).ending := by
  rcases hhas : c.entry.has i with _ | _
  case false =>
    rw [loadFile_eq_gather hlen hhas] at h
    cases h
    exact .inr (.inr ⟨rfl, rfl⟩)
  unfold loadFile at h
  rcases hread : FileHeader.read f.identify.1 f.identify.2 r.support with (e | d) | header
  · simp only [hread] at h
    cases h
    exact .inl ⟨rfl, by simp⟩
  · simp only [hread] at h
    cases h
    exact .inl ⟨rfl, by simp⟩
  · simp only [hread, hhas, if_true, reuse, pushCached_eq] at h
    cases h
    exact .inr (.inl ⟨header, rfl, rfl⟩)

/-- What comes of a candidate before its file is shelved. -/
theorem loadCandidate_cases {c : Chain} (hlen : c.levels.length = i) (src : Sources) (r : Request)
    (name : String) (file : FileReference) :
    ∃ c₁ ending, (c.note [.lookedUp name true]).loadCandidate src r i file =
        shelve i file (c₁, ending) ∧
      ((c₁ = c.opening name file ∧ ∀ found, ending ≠ .ok (.more, found)) ∨
        (∃ header, c₁ = (c.opening name file).taken r header i ∧
          ending = .ok (.finished, c.entry.format)) ∨
        ∃ f, c₁ = (c.opening name file).gather i (c.harvest src.transcoder r i f) ∧
          ending = (c.harvest src.transcoder r i f).ending) := by
  have hbefore : ((c.note [.lookedUp name true]).note [.opened file.name]).levels.length = i := hlen
  rcases hopen : src.files.openFile file with _ | f
  · refine ⟨c.opening name file, .ok (.finished, .undefined), ?_, .inl ⟨rfl, by simp⟩⟩
    simp only [loadCandidate, hopen, hbefore, Attempt.ended]
    rfl
  rcases hload : (c.opening name file).loadFile src.transcoder r i f with ⟨c₁, ending⟩
  refine ⟨c₁, ending, ?_, ?_⟩
  · rw [opening] at hload
    simp only [loadCandidate, hopen, hbefore, hload]
    rcases ending with _ | _ <;> rfl
  · exact (loadFile_cases (c := c.opening name file) hlen hload).imp_right
      (Or.imp_right fun h => ⟨f, h⟩)

/-- A file that cannot be opened ends the walk. -/
theorem walk_shut {c : Chain} {e : OpenError} (hlen : c.levels.length = i) (hcut : cut ≠ some i)
    (hname : name.isEmpty = false) (hlookup : src.files.lookup name = some file)
    (hopen : src.files.openFile file = .error e) (w : Walk) (names : List String) :
    c.walk src r cut i w (name :: names) =
      ((c.opening name file).keepFile i file,
        .ok ⟨if i = 0 then .undefined else w.format, .finished, w.cancelled⟩) := by
  have hbefore : ((c.note [.lookedUp name true]).note [.opened file.name]).levels.length = i := hlen
  have hown : ((c.opening name file).keepFile i file).foreign i w.format .undefined = false := by
    simp [foreign, (alike_shut hlen name file).levels, hlen]
  rw [walk_lookup hcut hname hlookup]
  simp only [loadCandidate, hopen, hbefore, Attempt.ended]
  exact pursue_finished hown names

/-- A candidate changes nothing, or its level is in the entry, or the level is fresh. -/
theorem walk_cons {c : Chain} (hlen : c.levels.length = i) (src : Sources) (r : Request)
    (cut : Option Nat) (w : Walk) (name : String) (names : List String) :
    (∃ c' result, c.walk src r cut i w (name :: names) = (c', result) ∧ c'.Alike c) ∨
      ∃ file f, src.Opens name file f ∧ cut ≠ some i ∧
        (c.entry.has i = false ∨ c.entry.has i = true ∧
          ∃ h, FileHeader.read f.identify.1 f.identify.2 r.support = .ok h) := by
  by_cases hcut : cut = some i
  · exact .inl ⟨c, _, by rw [walk, if_pos hcut], rfl, rfl, rfl, rfl⟩
  rcases hname : name.isEmpty with _ | _
  case true => exact .inl ⟨c, .ok w, by rw [walk, if_neg hcut, if_pos hname], rfl, rfl, rfl, rfl⟩
  rcases hlookup : src.files.lookup name with _ | file
  · refine .inl ⟨_, .ok { w with result := .finished }, ?_, alike_note c [.lookedUp name false]⟩
    rw [walk, if_neg hcut, hname, hlookup]
    rfl
  have hshut := alike_shut hlen name file
  rcases hopen : src.files.openFile file with _ | f
  · exact .inl ⟨_, _, walk_shut hlen hcut hname hlookup hopen w names, hshut⟩
  have ho : src.Opens name file f := ⟨hname, hlookup, hopen⟩
  rcases hhas : c.entry.has i with _ | _
  · exact .inr ⟨file, f, ho, hcut, .inl rfl⟩
  rcases hread : FileHeader.read f.identify.1 f.identify.2 r.support with e | h
  · have hhas' : (c.opening name file).entry.has i = true := hhas
    left
    rw [walk_opens hlen hcut ho]
    unfold loadFile
    simp only [hread]
    rcases e with e | d
    · exact ⟨_, _, rfl, hshut⟩
    · exact ⟨_, _, rfl, alike_opening c name file⟩
  · exact .inr ⟨file, f, ho, hcut, .inr ⟨rfl, h, hread⟩⟩

/-- Behind the first level the format of a walk stays the same. -/
theorem walk_format (hi : 0 < i) {c c' : Chain} {w w' : Walk} {names : List String}
    (hw : c.walk src r cut i w names = (c', .ok w')) : w'.format = w.format := by
  induction names generalizing c i w with
  | nil =>
    cases hw
    rfl
  | cons name names ih =>
    rcases walk_step c src r cut i w name names with
      ⟨-, h⟩ | ⟨-, -, h⟩ | ⟨-, -, -, h⟩ | ⟨-, -, file, -, h⟩
    all_goals rw [h] at hw
    · cases hw
      rfl
    · cases hw
      rfl
    · cases hw
      rfl
    rcases hl : (c.note [.lookedUp name true]).loadCandidate src r i file with
      ⟨c₁, e | ⟨result, found⟩⟩
    · rw [hl] at hw
      cases hw
    rw [hl] at hw
    rcases pursue_cases hw with ⟨-, -, rfl⟩ | ⟨-, -, -, rfl⟩ | ⟨-, ⟨-, -, rfl⟩ | ⟨-, hnext⟩⟩
    · rfl
    · rfl
    · simp only [if_neg hi.ne']
    · have h := ih (Nat.succ_pos i) hnext
      simpa only [if_neg hi.ne'] using h

/-- Only an image lets the walk go on, and an image is one level. -/
theorem harvest_more {c : Chain} {t : Option Transcoder} {found : PixelFormat}
    (h : (c.harvest t r i f).ending = .ok (.more, found)) :
    (c.harvest t r i f).layers.length = 1 := by
  rcases c.harvest_sound t r i f with ⟨-, _, he | ⟨_, he⟩⟩ | ⟨_, _, -, -, hs⟩
  · rw [h] at he
    cases he
  · rw [h] at he
    cases he
  · exact (hs.more found h).1

/-- A walk that goes on has the next level. -/
theorem length_of_more {c c' : Chain} (hlen : c.levels.length = i) {found : PixelFormat}
    (h : (c.note [.lookedUp name true]).loadCandidate src r i file = (c', .ok (.more, found))) :
    c'.levels.length = i + 1 := by
  obtain ⟨c₁, ending, hload, hcases⟩ := loadCandidate_cases hlen src r name file
  rw [hload] at h
  rcases ending with e | ended
  · cases h
  simp only [shelve, Prod.mk.injEq, Except.ok.injEq] at h
  obtain ⟨rfl, rfl⟩ := h
  rw [keepFile_length]
  rcases hcases with ⟨-, hmore⟩ | ⟨_, -, hfinished⟩ | ⟨f, rfl, hending⟩
  · exact absurd rfl (hmore found)
  · cases hfinished
  · have hone := harvest_more hending.symm
    change (c.levels ++ _).length = i + 1
    rw [List.length_append, List.length_map, hlen, hone]

theorem layers_of_failed {c : Chain} {t : Option Transcoder} {format : PixelFormat}
    (he : (c.harvest t r i f).ending = .ok (.failed, format)) :
    (c.harvest t r i f).layers = [] := by
  rcases c.harvest_sound t r i f with ⟨hnil, -⟩ | ⟨_, _, -, -, hs⟩
  · exact hnil
  · exact hs.failed format he

/-- Levels that are there already stay in front of those of a candidate. -/
theorem prefix_keepFile {levels : List LevelRecord} (hlen : levels.length = i) {c : Chain}
    (h : levels <+: c.levels) (file : FileReference) : levels <+: (c.keepFile i file).levels := by
  obtain ⟨rest, hrest⟩ := h
  rw [keepFile_levels, ← hrest, List.modify_eq_take_drop, List.take_left' hlen]
  exact List.prefix_append ..

theorem prefix_discardFrom {levels : List LevelRecord} (hlen : levels.length = i) {c : Chain}
    (h : levels <+: c.levels) : levels <+: (c.discardFrom i).levels := by
  obtain ⟨rest, hrest⟩ := h
  rw [discardFrom, ← hrest, List.take_left' hlen]

theorem prefix_laid {c : Chain} (hlen : c.levels.length = i) (name : String) (file : FileReference)
    (g : Harvest) : c.levels <+: (c.laid name file i g).levels :=
  prefix_keepFile hlen (List.prefix_append ..) file

/-- A walk leaves the levels that it started with as they are. -/
theorem walk_prefix {c c' : Chain} (hlen : c.levels.length = i) {names : List String} {w w' : Walk}
    (hw : c.walk src r cut i w names = (c', .ok w')) : c.levels <+: c'.levels := by
  induction names generalizing c i w with
  | nil =>
    cases hw
    exact List.prefix_rfl
  | cons name names ih =>
    rcases walk_cons hlen src r cut w name names with
      ⟨c₁, result, hwalk, halike⟩ | ⟨file, f, ho, hcut, hnew | ⟨hhas, h, hread⟩⟩
    · rw [hwalk] at hw
      cases hw
      rw [halike.levels]
    · have hlaid := prefix_laid hlen name file (c.harvest src.transcoder r i f)
      obtain ⟨result, found, he, rfl | rfl | ⟨rfl, u, hnext⟩⟩ := walk_fresh_ok hlen hcut ho hnew hw
      · exact hlaid
      · exact prefix_discardFrom hlen hlaid
      · exact hlaid.trans (ih (by rw [laid_length, hlen, harvest_more he]) hnext)
    · have htaken : c.levels <+: (((c.opening name file).taken r h i).keepFile i file).levels :=
        prefix_keepFile hlen (List.prefix_append ..) file
      rw [walk_cached hlen hcut ho hhas hread, shelve] at hw
      rcases pursue_cases hw with ⟨hfailed, -⟩ | ⟨-, -, rfl, -⟩ | ⟨-, ⟨-, rfl, -⟩ | ⟨hmore, -⟩⟩
      · cases hfailed
      · exact prefix_discardFrom hlen htaken
      · exact htaken
      · cases hmore

/-- A walk leaves the bytes before its first level alone. -/
theorem walk_bytes_of_lt (src : Sources) (r : Request) (cut : Option Nat) {c : Chain}
    (hlen : c.levels.length = i) {j : Nat} (hj : j < i) (w : Walk) (names : List String) :
    (c.walk src r cut i w names).1.entry.bytes j = c.entry.bytes j := by
  induction names generalizing c i w with
  | nil => rfl
  | cons name names ih =>
    rcases walk_cons hlen src r cut w name names with
      ⟨c', result, hwalk, halike⟩ | ⟨file, f, ho, hcut, hnew | ⟨hhas, h, hread⟩⟩
    · rw [hwalk, halike.entry]
    · rw [walk_fresh hlen hcut ho hnew]
      generalize hg : c.harvest src.transcoder r i f = g
      have hbytes := c.entry.bytes_putAll_of_lt (g.layers.map Layer.bytes) hj
      rcases he : g.ending with e | ⟨result, found⟩
      · exact hbytes
      by_cases hfailed : result = .failed
      · rw [hfailed]
        simpa [pursue] using hbytes
      rcases hf : (c.laid name file i g).foreign i w.format found with _ | _
      case true =>
        simp only [pursue_foreign hfailed hf]
        simpa [discardFrom, hj.ne] using hbytes
      cases result with
      | failed => exact absurd rfl hfailed
      | finished =>
        simp only [pursue_finished hf]
        simpa using hbytes
      | more =>
        have hnext : (c.laid name file i g).levels.length = i + 1 := by
          rw [laid_length, hlen, ← hg, harvest_more (hg ▸ he)]
        simp only [pursue_more hf]
        simpa [ih hnext (Nat.lt_succ_of_lt hj)] using hbytes
    · rw [walk_cached hlen hcut ho hhas hread]
      simp only [shelve, pursue]
      split
      · simp [discardFrom, hj.ne, taken, opening, note]
      · simp [taken, opening, note]

end Chain
end TexturePack
