import Mathlib
import TexturePack.Probe
import TexturePack.Proofs.Host.Search
import TexturePack.Proofs.Load.Filling
import TexturePack.Proofs.Readback

/-! What a probe tells. Whatever its task does between and during its polls, a probe that sees
its texture ready has found what one load of the request finds, and every level of it can be
copied in full. -/
namespace TexturePack

/-- A request that leaves files in their own size scales none to nothing. -/
theorem not_vanishing_unscaled (src : Sources) (names : List String) (support : Support)
    (label : String) : ¬ src.Vanishing (.unscaled names support label) := by
  have hpos {n : Nat} (hn : 0 < n) : scaleTruncating n 1 1 ≠ 0 := by
    rw [scaleTruncating, if_neg Nat.one_ne_zero, Nat.mul_one, Nat.div_one, halfWordLimit]
    omega
  rintro ⟨name, file, f, h, -, -, -, hread, hzero⟩
  obtain ⟨hw, hh⟩ := FileHeader.read_eq_ok hread
  rcases hzero with hzero | hzero
  · exact hpos hw hzero
  · exact hpos hh hzero

open Host (asked Settled)

namespace Host.Settled

variable {src : Sources} {r : Request} {h : Host} {t : Texture} {c : CacheEntry} {k : Nat}
  {l : LevelRecord}

/-- Listed levels belong to a load that has not crashed, and the entry with its bytes is there. -/
theorem loaded (hs : h.Settled src r t c) (hl : t.data.levels[k]? = some l) :
    ∃ o, (src.search r).outcome = some o ∧ o.levels[k]? = some l ∧ o.format = t.data.format ∧
      t.state = .active ∧ t.data.cache = some 0 := by
  have hne : (TextureData.found src r).levels ≠ [] := by
    rw [← hs.data]
    rintro hnil
    rw [hnil] at hl
    cases hl
  obtain ⟨o, ho, hfound, hlevels⟩ := TextureData.found_levels hne
  have hverdict : src.verdict r = .active := by
    rw [Sources.verdict, if_neg (by rwa [List.isEmpty_iff])]
  have hdata := hs.data.trans hfound
  refine ⟨o, ho, ?_, ?_, hs.state.trans hverdict, ?_⟩
  · rwa [hdata] at hl
  · rw [hdata]
    rfl
  · rw [hdata]
    simp [TextureData.commit, hlevels]

/-- Every level is copied in full into a buffer of its size. -/
theorem copyLevel (hs : h.Settled src r t c) (hr : ¬ src.Vanishing r)
    (hl : t.data.levels[k]? = some l) {out : Bytes} {pitch : Nat}
    (hout : out.length = t.data.format.levelSize l.width l.height)
    (hpitch : t.data.format = .rgba8 → pitch = 4 * l.width) (piecesFrom : Nat) :
    ∃ bytes, (src.search r).entry.level? k = some bytes ∧
      bytes.length = t.data.format.levelSize l.width l.height ∧
      h.copyLevel 0 k out pitch piecesFrom = .ok (some bytes) := by
  obtain ⟨o, ho, hlevel, hformat, hactive, hcache⟩ := hs.loaded hl
  have hempty : LevelData.empty.isEmpty = true := rfl
  obtain ⟨-, -, hfilled⟩ := loadLevels_filled hempty ho
  have hbytes := hfilled k l hlevel
  have hhas : (src.search r).entry.has k = true := by
    rw [← Bool.not_eq_false, Sources.search,
      loadLevels_missing_iff hempty ho (List.getElem?_eq_some_iff.mp hlevel).1]
    exact fun hnot => hr hnot.2
  obtain ⟨bytes, hstored⟩ := Option.isSome_iff_exists.mp hhas
  obtain ⟨rfl, -⟩ := LevelData.level?_eq_some_iff.mp hstored
  rw [hformat] at hbytes
  obtain ⟨hsize, hlt⟩ := PixelFormat.filled_iff.mp hbytes
  have hdata := hs.levels (by simp [ho])
  refine ⟨_, hstored, hbytes.length_eq, ?_⟩
  unfold Host.copyLevel
  simp only [hs.texture, hactive, ne_eq, not_true_eq_false, if_false, hl, hcache, Option.bind_some,
    hs.entry]
  exact Readback.copyLevel_full (hdata ▸ hstored) hsize hlt (hout.trans hbytes.length_eq.symm)
    hpitch piecesFrom

end Host.Settled

namespace Probe

/-- What is told of a texture of which all levels can be copied. -/
def account (s : TextureState) (d : TextureData) : List String :=
  ["state:  " ++ s.name, "format: " ++ d.format.name, "alpha:  " ++ d.alpha.name] ++
    d.levels.zipIdx.map fun (l, i) =>
      levelLine i l.width l.height (d.format.levelSize l.width l.height) true

/-- What a probe has of a texture that is ready. -/
structure ReadBack (src : Sources) (r : Request) (piecesFrom : Nat) (h : Host) (t : Texture) :
    Prop where
  texture : h.textures[0]? = some t
  state : t.state = src.verdict r
  data : t.data = .found src r
  /-- Every level fills the buffer of its size. -/
  copied : ∀ k l, t.data.levels[k]? = some l →
    ∃ bytes, (src.search r).entry.level? k = some bytes ∧
      bytes.length = t.data.format.levelSize l.width l.height ∧
      h.copyLevel 0 k (Bytes.zeros (t.data.format.levelSize l.width l.height))
        (pitch t.data.format l.width) piecesFrom = .ok (some bytes)
  report : Probe.report h t piecesFrom = .ok ⟨account t.state t.data, true⟩

theorem mapM_eq_ok {α β : Type} {f : α → Except Defect β} {g : α → β} {l : List α}
    (hf : ∀ a ∈ l, f a = .ok (g a)) : l.mapM f = .ok (l.map g) := by
  induction l with
  | nil => rfl
  | cons a l ih =>
    rw [List.mapM_cons, hf a (List.mem_cons_self ..),
      ih fun a ha => hf a (List.mem_cons_of_mem _ ha)]
    rfl

theorem readBack_of_settled {src : Sources} {r : Request} {h : Host} {t : Texture}
    {c : CacheEntry} (hs : h.Settled src r t c) (hr : ¬ src.Vanishing r) (piecesFrom : Nat) :
    ReadBack src r piecesFrom h t := by
  have hpitch (l : LevelRecord) (hf : t.data.format = .rgba8) :
      pitch t.data.format l.width = 4 * l.width := by
    rw [pitch, if_pos hf]
  have hcopied (k : Nat) (l : LevelRecord) (hl : t.data.levels[k]? = some l) :=
    hs.copyLevel hr hl (Bytes.length_zeros _) (hpitch l) piecesFrom
  refine ⟨hs.texture, hs.state, hs.data, hcopied, ?_⟩
  have hlines : (t.data.levels.zipIdx.mapM fun (l, i) => copyLevel h t.data i l piecesFrom) =
      .ok (t.data.levels.zipIdx.map fun (l, i) =>
        (levelLine i l.width l.height (t.data.format.levelSize l.width l.height) true, true)) := by
    apply mapM_eq_ok
    rintro ⟨l, i⟩ hmem
    obtain ⟨bytes, -, -, hcopy⟩ := hcopied i l (List.mem_zipIdx_iff_getElem?.mp hmem)
    simp only [copyLevel, hcopy]
    rfl
  unfold Probe.report
  rw [hlines]
  simp [account, bind, Except.bind, pure, Except.pure, List.map_map]

/-- Waiting lets tasks take some turns. -/
theorem wait_eq_turns (src : Sources) (now : Instant) (h : Host) :
    ∃ ts, wait src now h = h.turns src now ts := by
  unfold wait
  generalize List.range h.tasks.length = tasks
  induction tasks generalizing h with
  | nil => exact ⟨[], rfl⟩
  | cons k tasks ih =>
    obtain ⟨ts, hts⟩ := ih (h.turns src now (h.complete k))
    refine ⟨h.complete k ++ ts, ?_⟩
    rw [List.foldl_cons, hts, Host.turns, Host.turns, Host.turns, List.foldl_append]

theorem poll_eq (src : Sources) (config : Config) (names : List String) (now : Instant) :
    poll src config names now =
      (asked (request config names) now).poll 0 config.pollBudget now (wait src now) := rfl

/-- The host in which the first poll of a probe waits. -/
theorem waiting_asked {r : Request} {budget : Binary64} {now : Instant} :
    (asked r now).waiting? 0 budget now =
      if budget.isBelowZero then none
      else
        some (((asked r now).modifyTexture 0 fun t => { t with lastUsed := now }).startDecode 0) :=
  rfl

/-- A probe whose task runs to its end is ready at once, if it decodes at all. -/
theorem poll_ready_iff (src : Sources) (config : Config) (names : List String) (now : Instant) :
    (poll src config names now).2 = true ↔ config.pollBudget.isBelowZero = false := by
  rw [poll_eq]
  generalize request config names = r
  have hwaiting : (asked r now).waiting? 0 config.pollBudget now = _ := waiting_asked
  split at hwaiting
  next hbudget => simp [Host.poll_of_not_waiting hwaiting, hbudget]
  next hbudget =>
    simp only [Bool.not_eq_true] at hbudget
    simp only [hbudget, iff_true]
    have hs := ((Host.searching_asked src r now).use now).submit rfl
    generalize hh : ((asked r now).modifyTexture 0 _).startDecode 0 = h at hs hwaiting
    have htasks : h.tasks = [⟨0, .queued⟩] := by rw [← hh]; rfl
    have hat : h.SearchingAt src r _ _ 0 .queued := ⟨hs, rfl, by rw [htasks]; rfl⟩
    have hwait : wait src now h = h.turns src now (List.replicate 5 (.advance 0)) := by
      simp [wait, htasks, Host.complete, Host.progress?, Progress.remaining]
    obtain ⟨t, c, hended, hstate⟩ :=
      hat.complete (by simp) now (n := 5) (by simp [Progress.remaining])
    obtain ⟨hpending, hpublished⟩ := hended.ready hstate now
    rcases Host.poll_of_waiting hwaiting (wait src now) with hpoll | hpoll <;> rw [hpoll, hwait]
    · exact hpublished
    · exact hpending

theorem settled_of_poll {src : Sources} {config : Config} {names : List String} {now : Instant}
    (hready : (poll src config names now).2 = true) :
    ∃ t c, (poll src config names now).1.Settled src (request config names) t c := by
  have hs := Host.searching_asked src (request config names) now
  rw [poll_eq] at hready ⊢
  rcases hw : (asked (request config names) now).waiting? 0 config.pollBudget now with _ | h₁
  · rw [(Host.poll_of_not_waiting hw _).1] at hready
    cases hready
  · obtain ⟨ts, hts⟩ := wait_eq_turns src now h₁
    have hwait (h₂ : Host)
        (hw₂ : (asked (request config names) now).waiting? 0 config.pollBudget now = some h₂) :
        wait src now h₂ = h₂.turns src now ts := by
      rw [← Option.some.inj (hw.symm.trans hw₂), hts]
    rw [Host.poll_congr hwait] at hready ⊢
    exact hs.settled hready

theorem run_eq (source : Source) (transcoder : Option Transcoder) (config : Config)
    {names : List String} (hnames : names ≠ []) (now : Instant) :
    let src : Sources := ⟨source.fileSystem, transcoder⟩
    let r := request config names
    run (some source) transcoder config names now =
      .ok (if config.pollBudget.isBelowZero then .failure
        else ⟨account (src.verdict r) (.found src r), true⟩) := by
  intro src r
  have hready := poll_ready_iff src config names now
  have hsettled : (poll src config names now).2 = true → _ := settled_of_poll
  unfold run
  simp only [List.isEmpty_iff, hnames, if_false]
  rcases hpoll : poll src config names now with ⟨h, ready⟩
  rw [hpoll] at hready hsettled
  cases ready with
  | false =>
    have hbudget : config.pollBudget.isBelowZero = true := by simpa using hready
    simp only [hbudget, if_true]
  | true =>
    obtain ⟨t, c, hs⟩ := hsettled rfl
    have hback := readBack_of_settled hs (not_vanishing_unscaled src _ _ _)
      config.parallelCopyMinBytes
    simp only [hready.mp rfl, hback.texture, hback.report, hback.state, hback.data,
      Bool.false_eq_true, if_false]
    rfl

/-- A probe always reads back what it has found. Its texture may be polled as often as one likes,
and tasks may take any turns between and during the polls: when the texture is ready, it has what
one load of the request finds, active or not, and each of its levels fills the buffer of its size.
So a probe succeeds whenever it decodes at all. -/
theorem reads_back (source : Source) (transcoder : Option Transcoder) (config : Config)
    {names : List String} (hnames : names ≠ []) :
    let src : Sources := ⟨source.fileSystem, transcoder⟩
    let r := request config names
    (∀ (events : List (Instant × HostEvent)) (asking now : Instant) (ts : List Turn) (h : Host),
      (∀ e ∈ events, e.2.Awaits 0) →
      ((asked r asking).run src events).poll 0 config.pollBudget now
          (fun h => h.turns src now ts) = (h, true) →
      ∃ t, ReadBack src r config.parallelCopyMinBytes h t) ∧
    ∀ now, run (some source) transcoder config names now =
      .ok (if config.pollBudget.isBelowZero then .failure
        else ⟨account (src.verdict r) (.found src r), true⟩) := by
  intro src r
  refine ⟨?_, fun now => run_eq source transcoder config hnames now⟩
  intro events asking now ts h hevents hpoll
  obtain ⟨t, c, hs⟩ := (Host.searching_asked src r asking).run hevents
  have hready : (((asked r asking).run src events).poll 0 config.pollBudget now
      fun h => h.turns src now ts).2 = true := by rw [hpoll]
  obtain ⟨t', c', hsettled⟩ := hs.settled hready
  rw [hpoll] at hsettled
  exact ⟨t', readBack_of_settled hsettled (not_vanishing_unscaled src _ _ _) _⟩

/-- A folder with a file of a single block. -/
def blockFolder : Source := .directory ⟨⟨[(["a.dds".toList], blockFile)], []⟩, [], ""⟩

theorem reads_back_blockFolder :
    let src : Sources := ⟨blockFolder.fileSystem, none⟩
    let r := request .initial ["a.dds"]
    let now := Instant.ofSeconds 0
    let h := (asked r now).run src [(now, .poll 0 Config.initial.pollBudget [.lose 0]),
      (now, .poll 0 Config.initial.pollBudget []), (now, .turn (.advance 1))]
    let wait (h : Host) := h.turns src now (List.replicate 4 (.advance 1))
    ((h.poll 0 Config.initial.pollBudget now wait).2 = true ∧
        ∃ t, ReadBack src r Config.initial.parallelCopyMinBytes
          (h.poll 0 Config.initial.pollBudget now wait).1 t) ∧
      run (some blockFolder) none .initial ["a.dds"] now =
        .ok ⟨["state:  ACTIVE", "format: BC1_RGBA_UNORM_BLOCK", "alpha:  Unknown",
          "level 0: 4x4, 8 bytes"], true⟩ := by
  intro src r now h wait
  have hnames : ["a.dds"] ≠ [] := by decide
  obtain ⟨hloop, hrun⟩ := reads_back blockFolder none .initial hnames
  have hready : (h.poll 0 Config.initial.pollBudget now wait).2 = true := by decide +kernel
  refine ⟨⟨hready, hloop _ now now _ _ ?_ (Prod.ext rfl hready)⟩, ?_⟩
  · intro e he
    simp only [List.mem_cons, List.not_mem_nil, or_false] at he
    rcases he with rfl | rfl | rfl
    · exact .poll ..
    · exact .poll ..
    · exact .turn ..
  · rw [hrun now]
    decide +kernel

end Probe
end TexturePack
