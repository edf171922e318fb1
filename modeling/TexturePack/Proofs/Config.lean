import Mathlib
import TexturePack.Config.Store
import TexturePack.Proofs.Files.Saving
import TexturePack.Proofs.Json.Value
import TexturePack.Proofs.Shortest

/-! Settings survive being saved. Whatever text they were loaded from, with its fields in any
order, by name or by place, left out or unknown, they are written as a text that loads as the same
settings. -/
namespace TexturePack

theorem toList_loop_eq (bs : ByteArray) (i : Nat) (passed : List UInt8) :
    ByteArray.toList.loop bs i passed = passed.reverse ++ bs.data.toList.drop i := by
  fun_induction ByteArray.toList.loop bs i passed with
  | case1 i passed h ih =>
    have hi : i < bs.data.toList.length := by simpa using h
    have hget : bs.get! i = bs.data.toList[i] := getElem!_pos bs.data i h
    rw [ih, List.drop_eq_getElem_cons hi, hget, List.reverse_cons, List.append_assoc,
      List.singleton_append]
  | case2 i passed h =>
    rw [List.drop_eq_nil_of_le (by simpa using Nat.le_of_not_lt h), List.append_nil]

/-- The bytes of a text are those of that text. -/
theorem fromUTF8?_toUTF8 (s : String) : String.fromUTF8? ⟨s.toUTF8.toList.toArray⟩ = some s := by
  have hbytes : (⟨s.toUTF8.toList.toArray⟩ : ByteArray) = s.toUTF8 := by
    rw [ByteArray.toList, toList_loop_eq, List.reverse_nil, List.nil_append, List.drop_zero,
      Array.toArray_toList]
  rw [hbytes]
  exact dif_pos s.isValidUTF8

namespace Json

variable {α : Type} {fields : Fields} {place : Nat} {name : String} {read : Reader α}
  {a default : α}

/-- A field is found under its name if no name occurs twice. -/
theorem Fields.value?_named {members : List (Str × Value)} {v : Value}
    (hnames : (members.map Prod.fst).Nodup) (hmem : (some name, v) ∈ members) (place : Nat) :
    (Fields.named members).value? place name = some (some v) := by
  have hfilter : members.filter (fun m => m.1 = some name) = [(some name, v)] := by
    induction members with
    | nil => cases hmem
    | cons m ms ih =>
      obtain ⟨hfresh, hnames⟩ := List.nodup_cons.mp hnames
      rcases List.mem_cons.mp hmem with rfl | hmem
      · have hrest : ms.filter (fun m => m.1 = some name) = [] :=
          List.filter_eq_nil_iff.mpr fun m hm hkey =>
            hfresh (List.mem_map.mpr ⟨m, hm, of_decide_eq_true hkey⟩)
        rw [List.filter_cons_of_pos (by simp), hrest]
      · have hother : m.1 ≠ some name := fun hkey => hfresh (hkey ▸ List.mem_map_of_mem hmem)
        rw [List.filter_cons_of_neg (by simpa using hother), ih hnames hmem]
  simp only [value?, hfilter]

variable {P : α → Prop}

theorem Fields.of_required (hread : ∀ {v a}, read v = some a → P a)
    (h : fields.required place name read = some a) : P a := by
  unfold required at h
  cases hvalue : fields.value? place name with
  | none => simp [hvalue] at h
  | some found =>
    cases found with
    | none => simp [hvalue] at h
    | some v => exact hread (v := v) (by simpa [hvalue] using h)

/-- What holds for the default and for whatever is read holds for the field. -/
theorem Fields.of_defaulted (hdefault : P default) (hread : ∀ {v a}, read v = some a → P a)
    (h : fields.defaulted place name read default = some a) : P a := by
  unfold defaulted at h
  cases hvalue : fields.value? place name with
  | none => simp [hvalue] at h
  | some found =>
    cases found with
    | none =>
      obtain rfl : default = a := by simpa [hvalue] using h
      exact hdefault
    | some v => exact hread (v := v) (by simpa [hvalue] using h)

theorem Fields.required_named {members : List (Str × Value)} {v : Value}
    (hnames : (members.map Prod.fst).Nodup) (hmem : (some name, v) ∈ members)
    (hread : read v = some a) : (Fields.named members).required place name read = some a := by
  simp [required, value?_named hnames hmem place, hread]

theorem Fields.defaulted_named {members : List (Str × Value)} {v : Value}
    (hnames : (members.map Prod.fst).Nodup) (hmem : (some name, v) ∈ members)
    (hread : read v = some a) :
    (Fields.named members).defaulted place name read default = some a := by
  simp [defaulted, value?_named hnames hmem place, hread]

theorem lt_of_readNat {bound n : Nat} {v : Value} (h : readNat bound v = some n) : n < bound := by
  cases v with
  | number m => exact of_decide_eq_true (Option.filter_eq_some_iff.mp h).2
  | _ => cases h

theorem finite_of_readBinary64 {v : Value} {x : Binary64} (h : readBinary64 v = some x) :
    ∃ m s, x.magnitude = .finite m s := by
  cases v with
  | number n => exact Number.finite_of_toBinary64? h
  | _ => cases h

theorem readNat_whole {bound n : Nat} (h : n < bound) :
    readNat bound (Value.number (.whole n)).respelled = some n := by
  simp [Value.respelled, Number.respelled, readNat, Number.toNat?, Option.filter, h]

theorem readBinary64_ofBinary64 {x : Binary64} {m s : Nat} (h : x.magnitude = .finite m s) :
    readBinary64 (Value.ofBinary64 x).respelled = some x := by
  simp only [Value.ofBinary64, h]
  exact (Number.toBinary64?_respelled _).trans (toBinary64?_decimal h)

end Json

open Json Files

theorem LogLevel.read_name (l : LogLevel) :
    LogLevel.read (Value.string (some l.name)).respelled = some l := by
  cases l <;> rfl

theorem Support.read_toJson (s : Support) : Support.read s.toJson.respelled = some s := by
  rfl

namespace Config

variable {c : Config} {v : Value} {text : String}

/-- What a reader makes sure of. -/
structure Readable (c : Config) : Prop where
  version_lt : c.version < halfWordLimit
  workerThreads_lt : c.workerThreads < wordLimit
  purgeAfterSecs_lt : c.purgeAfterSecs < wordLimit
  parallelCopyMinBytes_lt : c.parallelCopyMinBytes < wordLimit
  pollBudgetMs_finite : ∃ m s, c.pollBudgetMs.magnitude = .finite m s

theorem initial_readable : initial.Readable where
  version_lt := by decide
  workerThreads_lt := by decide
  purgeAfterSecs_lt := by decide
  parallelCopyMinBytes_lt := by decide
  pollBudgetMs_finite := ⟨Binary64.hiddenBit, 1021, by decide +kernel⟩

theorem readable_of_read (h : read v = some c) : c.Readable := by
  simp only [read, Option.bind_eq_bind, Option.bind_eq_some_iff, Option.pure_def,
    Option.some.injEq] at h
  obtain ⟨fields, -, version, hversion, logLevel, -, workerThreads, hworkers, budget, hbudget,
    purgeAfter, hpurge, minBytes, hbytes, support, -, rfl⟩ := h
  have hinitial := initial_readable
  exact {
    version_lt := Fields.of_required (P := (· < halfWordLimit)) lt_of_readNat hversion
    workerThreads_lt :=
      Fields.of_defaulted (P := (· < wordLimit)) hinitial.workerThreads_lt lt_of_readNat hworkers
    purgeAfterSecs_lt :=
      Fields.of_defaulted (P := (· < wordLimit)) hinitial.purgeAfterSecs_lt lt_of_readNat hpurge
    parallelCopyMinBytes_lt :=
      Fields.of_defaulted (P := (· < wordLimit)) hinitial.parallelCopyMinBytes_lt lt_of_readNat
        hbytes
    pollBudgetMs_finite :=
      Fields.of_defaulted (P := fun x : Binary64 => ∃ m s, x.magnitude = .finite m s)
        hinitial.pollBudgetMs_finite finite_of_readBinary64 hbudget }

theorem readOptional_toJson (s : Option Support) :
    readOptional Support.read ((s.map Support.toJson).getD .null).respelled = some s := by
  cases s with
  | none => rfl
  | some s => exact congrArg (Option.map some) s.read_toJson

/-- The fields that are read from what is saved. -/
def savedFields (c : Config) : List (Str × Value) :=
  [(some "version", (Value.number (.whole c.version)).respelled),
    (some "log_level", (Value.string (some c.logLevel.name)).respelled),
    (some "worker_threads", (Value.number (.whole c.workerThreads)).respelled),
    (some "poll_budget_ms", (Value.ofBinary64 c.pollBudgetMs).respelled),
    (some "purge_after_secs", (Value.number (.whole c.purgeAfterSecs)).respelled),
    (some "parallel_copy_min_bytes", (Value.number (.whole c.parallelCopyMinBytes)).respelled),
    (some "format_support", ((c.support.map Support.toJson).getD .null).respelled)]

theorem nodup_savedFields (c : Config) : (c.savedFields.map Prod.fst).Nodup := by
  show [some "version", some "log_level", some "worker_threads", some "poll_budget_ms",
    some "purge_after_secs", some "parallel_copy_min_bytes", some "format_support"].Nodup
  decide

/-- Settings are read back from their JSON value. -/
theorem read_toJson (h : c.Readable) : read c.toJson.respelled = some c := by
  obtain ⟨m, s, hbudget⟩ := h.pollBudgetMs_finite
  have hfields : Fields.of? 7 c.toJson.respelled = some (.named c.savedFields) := rfl
  have hnames := c.nodup_savedFields
  simp only [read, hfields, Option.bind_eq_bind, Option.bind_some]
  rw [Fields.required_named hnames (List.mem_of_getElem? (i := 0) rfl) (readNat_whole h.version_lt),
    Fields.defaulted_named hnames (List.mem_of_getElem? (i := 1) rfl) c.logLevel.read_name,
    Fields.defaulted_named hnames (List.mem_of_getElem? (i := 2) rfl)
      (readNat_whole h.workerThreads_lt),
    Fields.defaulted_named hnames (List.mem_of_getElem? (i := 3) rfl)
      (readBinary64_ofBinary64 hbudget),
    Fields.defaulted_named hnames (List.mem_of_getElem? (i := 4) rfl)
      (readNat_whole h.purgeAfterSecs_lt),
    Fields.defaulted_named hnames (List.mem_of_getElem? (i := 5) rfl)
      (readNat_whole h.parallelCopyMinBytes_lt),
    Fields.defaulted_named hnames (List.mem_of_getElem? (i := 6) rfl)
      (readOptional_toJson c.support)]
  rfl

theorem ofText_eq_ok_iff : ofText text = .ok c ↔
    ∃ v, parse? text = some v ∧ read v = some c ∧ c.version ≤ supportedVersion := by
  unfold ofText
  cases hparse : parse? text with
  | none => simp
  | some v =>
    cases hread : read v with
    | none => simp [hread]
    | some d =>
      simp only [Option.bind_some, hread, Option.some.injEq, exists_eq_left']
      split_ifs with hnew
      · simp only [false_iff, not_and]
        rintro rfl
        exact Nat.not_le.mpr hnew
      · simp only [Except.ok.injEq, iff_self_and]
        rintro rfl
        exact Nat.not_lt.mp hnew

theorem ofText_text (h : c.Readable) (hversion : c.version ≤ supportedVersion) :
    ofText c.text = .ok c :=
  ofText_eq_ok_iff.mpr ⟨_, parse?_text c.toJson, read_toJson h, hversion⟩

theorem ofFile_text (h : c.Readable) (hversion : c.version ≤ supportedVersion) :
    ofFile (some c.text.toUTF8.toList) = .ok c := by
  rw [ofFile, Option.bind_some, fromUTF8?_toUTF8]
  exact ofText_text h hversion

theorem load_of_save {t t' : Tree} {start : Path} {name : String} (h : c.Readable)
    (hversion : c.version ≤ supportedVersion) (hsave : c.save t start name = .ok t') :
    load t' start name = .ok c := by
  unfold save at hsave
  split at hsave
  case h_1 _ ht =>
    obtain rfl := Except.ok.inj hsave
    rw [load, Tree.read?_save ht]
    exact ofFile_text h hversion
  case h_2 => cases hsave

/-- Settings that were loaded are loaded again from what is saved of them, as a text and as a
file. -/
theorem saved_loads (h : ofText text = .ok c) :
    ofText c.text = .ok c ∧
      ∀ (t t' : Tree) (start : Path) (name : String),
        c.save t start name = .ok t' → load t' start name = .ok c := by
  obtain ⟨v, -, hread, hversion⟩ := ofText_eq_ok_iff.mp h
  have hreadable := readable_of_read hread
  exact ⟨ofText_text hreadable hversion, fun _ _ _ _ => load_of_save hreadable hversion⟩

/-- An unknown field, the others in no order, some by place and most left out. -/
theorem saved_loads_unsorted : ∃ (c : Config) (t : Tree),
    ofText
      "\x7b\"new\": 0, \"format_support\": [true], \"poll_budget_ms\": -1E-2, \"version\": 1\x7d" =
        .ok c ∧
    ofText c.text = .ok c ∧ c.save .empty [] "nested/texreplace.json" = .ok t ∧
    load t [] "nested/texreplace.json" = .ok c := by
  let c : Config :=
    ⟨1, .info, 2, ⟨0xBF847AE147AE147B⟩, 20, 262144, some ⟨true, false, false, false⟩⟩
  have h : ofText
      "\x7b\"new\": 0, \"format_support\": [true], \"poll_budget_ms\": -1E-2, \"version\": 1\x7d" =
        .ok c := by
    decide +kernel
  obtain ⟨t, ht⟩ : ∃ t, c.save .empty [] "nested/texreplace.json" = .ok t := ⟨_, rfl⟩
  obtain ⟨hloads, hloaded⟩ := saved_loads h
  exact ⟨c, t, h, hloads, ht, hloaded _ _ _ _ ht⟩

end Config
end TexturePack
