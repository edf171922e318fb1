import Mathlib
import TexturePack.Proofs.Files.Agreement

/-! Names that are found do not lead out of their root. Followed by their spelling alone they stay
in the root at every step, and they are below it as soon as one part of them is a name. -/
namespace TexturePack.Files

/-- One step from a folder by the spelling of a part alone. Above the top there is the top. -/
def onward (p : Path) (part : List Char) : Path :=
  if part = [] ∨ part = ['.'] then p
  else if part = ['.', '.'] then p.dropLast
  else p ++ [part]

/-- Where the first `k` parts of a name lead from a folder. Absolute names begin at the top. -/
def reached (root : Path) (name : List Char) (k : Nat) : Path :=
  ((segments name).take k).foldl onward (Tree.origin root name)

/-- A name that does not lead out of a folder. -/
structure Confined (name : List Char) : Prop where
  normal : Normal name
  stays : ∀ root k, root <+: reached root name k
  /-- It is below the folder behind the first part that is a name. -/
  below_iff : ∀ root k, reached root name k ≠ root ↔ ∃ part ∈ (segments name).take k, Named part

/-- Parts without double dots go down or stay. -/
theorem foldl_onward {parts : Path} (hup : ['.', '.'] ∉ parts) (root : Path) :
    parts.foldl onward root = root ++ parts.filter fun part => Named part := by
  induction parts generalizing root with
  | nil => exact (List.append_nil root).symm
  | cons part parts ih =>
    obtain ⟨hpart, hup⟩ := not_or.mp (mt List.mem_cons.mpr hup)
    rw [List.foldl_cons, ih hup]
    by_cases hn : Named part
    · rw [List.filter_cons_of_pos (by simpa using hn), onward, if_neg (by simpa using hn),
        if_neg (Ne.symm hpart), List.append_assoc]
      rfl
    · rw [List.filter_cons_of_neg (by simpa using hn), onward, if_pos (Tree.not_named_iff.mp hn)]

theorem Normal.reached_eq {name : List Char} (h : Normal name) (root : Path) (k : Nat) :
    reached root name k = root ++ ((segments name).take k).filter fun part => Named part := by
  have horigin : Tree.origin root name = root := if_neg h.relative
  rw [reached, horigin]
  exact foldl_onward (fun hup => h.inside (List.mem_of_mem_take hup)) root

theorem Normal.confined {name : List Char} (h : Normal name) : Confined name where
  normal := h
  stays root k := by
    rw [h.reached_eq]
    exact List.prefix_append ..
  below_iff root k := by
    rw [h.reached_eq, Ne, List.append_right_eq_self, List.filter_eq_nil_iff]
    simp

namespace Tree

/-- Parts without double dots that lead to a file spell its path below the folder. -/
theorem file?_of_follow {t : Tree} {p parts : Path} {content : Bytes} (hup : ['.', '.'] ∉ parts)
    (h : parts.foldlM t.step (.folder p) = .ok (.file content)) :
    t.file? (p ++ parts.filter fun part => Named part) = some content ∧
      (parts.filter fun part => Named part) ≠ [] := by
  induction parts generalizing p with
  | nil => simp [pure, Except.pure] at h
  | cons part parts ih =>
    obtain ⟨hpart, hup⟩ := not_or.mp (mt List.mem_cons.mpr hup)
    rw [List.foldlM_cons] at h
    by_cases hn : Named part
    case neg =>
      rw [step_skip hn] at h
      rw [List.filter_cons_of_neg (by simpa using hn)]
      exact ih hup h
    rw [List.filter_cons_of_pos (by simpa using hn)]
    refine ⟨?_, List.cons_ne_nil _ _⟩
    by_cases hsize : (String.ofList part).utf8ByteSize ≤ maxNameBytes
    case neg =>
      rw [step_tooLong hn (Ne.symm hpart) (Nat.not_le.mp hsize)] at h
      cases h
    rcases hfile : t.file? (p ++ [part]) with _ | found
    · rw [step_folder hn (Ne.symm hpart) hsize hfile] at h
      split at h
      · rw [List.append_cons]
        exact (ih hup h).1
      · cases h
    · rw [step_file hn (Ne.symm hpart) hsize hfile] at h
      obtain ⟨rfl, rfl⟩ := follow_file_iff.mp h
      exact hfile

end Tree

namespace Directory

variable {d : Directory} {s : String} {f : FileReference}

/-- What a directory finds is a file below its root, on the path that the name spells. -/
theorem file?_of_find? (h : d.find? s = some f) :
    lookupName? s = some f.name ∧ f.index = 0 ∧
      ∃ content, d.tree.resolve d.root f.name.toList = .ok (.file content) ∧
        d.tree.file? (d.root ++ pathOf f.name.toList) = some content ∧
        pathOf f.name.toList ≠ [] := by
  rcases hs : lookupName? s with _ | name
  · simp [find?, hs] at h
  simp only [find?, hs, Option.bind_eq_bind, Option.bind_some] at h
  split at h
  case h_2 => cases h
  case h_1 content hr =>
    obtain rfl := Option.some.inj h
    refine ⟨rfl, rfl, content, hr, ?_⟩
    have hnormal := (lookupName?_eq_some_iff.mp hs).2
    rw [resolve_eq hnormal] at hr
    rcases hc : Tree.checkName d.root name.toList with _ | _
    · rw [hc] at hr
      cases hr
    · rw [hc] at hr
      exact Tree.file?_of_follow hnormal.inside hr

/-- A name that has been found is found again. -/
theorem find?_name (h : d.find? s = some f) : d.find? f.name = some f := by
  obtain ⟨hname, hindex, content, hr, -⟩ := file?_of_find? h
  have hagain := lookupName?_of_normal (lookupName?_eq_some_iff.mp hname).2
  rcases f with ⟨name, index⟩
  simp only at hindex
  simp [find?, hagain, hr, hindex]

end Directory

theorem Archive.find?_name {a : Archive} {s : String} {f : FileReference}
    (h : a.find? s = some f) : a.find? f.name = some f := by
  obtain ⟨hname, hindex⟩ := find?_iff.mp h
  exact find?_iff.mpr ⟨lookupName?_of_normal (lookupName?_eq_some_iff.mp hname).2, hindex⟩

/-- A name that is found cannot lead out of a folder, and it is found again as it is. What a
directory finds is a file below its root, and that file is the one that is opened. An archive can
find an entry whose name has no name among its parts, and so spells the root itself. -/
theorem found_is_confined (d : Directory) (a : Archive) (s : String) :
    (∀ f, d.find? s = some f →
      Confined f.name.toList ∧ d.find? f.name = some f ∧
        ∃ path content, path = reached d.root f.name.toList (segments f.name.toList).length ∧
          path ≠ d.root ∧ d.tree.file? path = some content ∧
          d.openFile f = .ok (.ofBytes content)) ∧
      ∀ f, a.find? s = some f → Confined f.name.toList ∧ a.find? f.name = some f := by
  constructor
  · intro f hf
    obtain ⟨hname, -, content, hresolve, hfile, hnamed⟩ := Directory.file?_of_find? hf
    have hnormal := (lookupName?_eq_some_iff.mp hname).2
    have hpath : reached d.root f.name.toList (segments f.name.toList).length =
        d.root ++ pathOf f.name.toList := by
      rw [hnormal.reached_eq, List.take_length]
      rfl
    refine ⟨hnormal.confined, Directory.find?_name hf, _, content, hpath.symm, ?_, hfile, ?_⟩
    · simpa using hnamed
    · simp [Directory.openFile, hresolve, bind, Except.bind]
  · intro f hf
    exact ⟨(lookupName?_eq_some_iff.mp (Archive.find?_iff.mp hf).1).2.confined,
      Archive.find?_name hf⟩

theorem found_is_confined_backslashes :
    loneDirectory.find? "\\a\\b.png" = some ⟨"a/b.png", 0⟩ ∧
      Confined "a/b.png".toList ∧ loneDirectory.find? "a/b.png" = some ⟨"a/b.png", 0⟩ ∧
      loneArchive.find? "/a/b.png" = some ⟨"a/b.png", 0⟩ ∧
      loneArchive.find? "a/b.png" = some ⟨"a/b.png", 0⟩ := by
  have hd : loneDirectory.find? "\\a\\b.png" = some ⟨"a/b.png", 0⟩ := by decide +kernel
  have ha : loneArchive.find? "/a/b.png" = some ⟨"a/b.png", 0⟩ := by decide +kernel
  obtain ⟨hconfined, hagain, -⟩ :=
    (found_is_confined loneDirectory loneArchive "\\a\\b.png").1 _ hd
  have hentry := ((found_is_confined loneDirectory loneArchive "/a/b.png").2 _ ha).2
  exact ⟨hd, hconfined, hagain, ha, hentry⟩

/-- The bytes of an archive with one file, whose name is a single dot. -/
def dotArchiveBytes : Bytes :=
  [0x50, 0x4B, 3, 4, 20, 0, 0, 0, 0, 0, 0, 0, 33, 0, 0x2E, 0x7A, 0x66, 0x4C, 1, 0, 0, 0, 1, 0, 0,
    0, 1, 0, 0, 0, 46, 7, 0x50, 0x4B, 1, 2, 20, 0, 20, 0, 0, 0, 0, 0, 0, 0, 33, 0, 0x2E, 0x7A, 0x66,
    0x4C, 1, 0, 0, 0, 1, 0, 0, 0, 1, 0, 0, 0, 0, 0, 0, 0, 0, 0, 0, 0, 128, 1, 0, 0, 0, 0, 46, 0x50,
    0x4B, 5, 6, 0, 0, 0, 0, 1, 0, 1, 0, 47, 0, 0, 0, 32, 0, 0, 0, 0, 0]

/-- Names may begin with a single dot, which is the root itself, or be nothing else. -/
theorem single_dot_is_the_root :
    (Archive.ofBytes? dotArchiveBytes "p.zip").bind (fun a => a.find? ".") = some ⟨".", 0⟩ ∧
      loneDirectory.find? "./a/b.png" = some ⟨"./a/b.png", 0⟩ ∧
      ∀ root, reached root ".".toList 1 = root ∧ reached root "./a/b.png".toList 1 = root := by
  refine ⟨by decide +kernel, by decide +kernel, fun root => ⟨?_, ?_⟩⟩
  · simp [reached, onward, Tree.origin, segments]
  · simp [reached, onward, Tree.origin, segments]

end TexturePack.Files
