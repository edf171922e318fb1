import Mathlib
import TexturePack.Files.Archive
import TexturePack.Proofs.Files.Directory

/-! The same files kept in folders and in an archive. A folder is searched part by part, so that
a name can be spelled in many ways, while an archive knows each file under one name only. -/
namespace TexturePack.Files

namespace Archive

/-- The entries are just these files. Each of them can be read, and what is read is what was
stored. -/
structure Stores (a : Archive) (c : Contents) : Prop where
  listed : ∀ f ∈ c.files, ∃ e ∈ a.entries, e.name = f.1
  held : ∀ e ∈ a.entries, ∃ bytes, (e.name, bytes) ∈ c.files ∧ e.readable ∧
    ∃ start, a.contentStart? e = some start ∧ a.content e start = .ok bytes

variable {a : Archive} {c : Contents} {s name : String} {f : FileReference} {bytes : Bytes}

/-- An archive finds the file that has the name. -/
theorem find?_iff :
    a.find? s = some f ↔
      lookupName? s = some f.name ∧
        a.entries.findIdx? (fun e => e.name = f.name) = some f.index := by
  rcases hs : lookupName? s with _ | name
  · simp [find?, hs]
  rcases f with ⟨name', index⟩
  simp only [find?, hs, Option.bind_eq_bind, Option.bind_some, Option.bind_eq_some_iff,
    Option.some.injEq]
  constructor
  · rintro ⟨index', hindex, h⟩
    cases h
    exact ⟨rfl, hindex⟩
  · rintro ⟨rfl, hindex⟩
    exact ⟨index, hindex, rfl⟩

theorem isFolder_of_stored {e : ArchiveEntry} (h : (e.name, bytes) ∈ c.files) :
    e.isFolder = false := by
  unfold ArchiveEntry.isFolder
  split
  case h_1 last hlast =>
    obtain ⟨cs, hcs⟩ := List.getLast?_eq_some_iff.mp hlast
    have hback : last ≠ '\\' := fun hb => c.forward _ h (by simp [hcs, hb])
    have hslash : last ≠ '/' := fun hb => by
      refine (c.proper _ h [] ?_).1 rfl
      simp [hcs, hb, segments_concat_separator]
    simp [hback, hslash]
  case h_2 => rfl

theorem openFile_of_find? (ha : a.Stores c) (h : a.find? s = some f) :
    ∃ bytes, (f.name, bytes) ∈ c.files ∧ a.openFile f = .ok (.ofBytes bytes) := by
  obtain ⟨-, hindex⟩ := find?_iff.mp h
  obtain ⟨hlt, hname, -⟩ := List.findIdx?_eq_some_iff_getElem.mp hindex
  obtain ⟨bytes, hmem, hreadable, start, hstart, hcontent⟩ :=
    ha.held _ (List.getElem_mem hlt)
  simp only [decide_eq_true_eq] at hname
  have hentry : (a.entries[f.index]?).filter ArchiveEntry.readable = some a.entries[f.index] := by
    rw [List.getElem?_eq_getElem hlt, Option.filter_some, if_pos hreadable]
  refine ⟨bytes, hname ▸ hmem, ?_⟩
  simp [openFile, hentry, hstart, isFolder_of_stored hmem, hcontent, Except.map]

theorem found_iff (ha : a.Stores c) :
    (a.find? s).map FileReference.name = some name ↔
      lookupName? s = some name ∧ ∃ bytes, (name, bytes) ∈ c.files := by
  constructor
  · intro h
    obtain ⟨f, hf, rfl⟩ := Option.map_eq_some_iff.mp h
    obtain ⟨bytes, hmem, -⟩ := openFile_of_find? ha hf
    exact ⟨(find?_iff.mp hf).1, bytes, hmem⟩
  · rintro ⟨hs, bytes, hmem⟩
    obtain ⟨e, he, hname⟩ := ha.listed _ hmem
    have hany : a.entries.any (fun e => e.name = name) :=
      List.any_eq_true.mpr ⟨e, he, decide_eq_true hname⟩
    obtain ⟨i, hi⟩ := Option.isSome_iff_exists.mp (List.findIdx?_isSome.trans hany)
    exact Option.map_eq_some_iff.mpr ⟨⟨name, i⟩, find?_iff.mpr ⟨hs, hi⟩, rfl⟩

end Archive

section agreement

variable {c : Contents} {d : Directory} {a : Archive}

/-- An archive finds what a directory with the same files finds under a plain name. -/
theorem archive_find?_eq (hd : d.Stores c) (ha : a.Stores c) (s : String) :
    (a.find? s).map FileReference.name =
      ((d.find? s).map FileReference.name).filter plain := by
  refine Option.ext fun name => (Archive.found_iff ha).trans ?_
  rw [Option.filter_eq_some_iff]
  constructor
  · intro h
    obtain ⟨-, bytes, hmem⟩ := id h
    have hplain := c.plain_of_mem hmem
    exact ⟨(Directory.found_iff hd hplain).mpr h, hplain⟩
  · rintro ⟨h, hplain⟩
    exact (Directory.found_iff hd hplain).mp h

/-- What a directory finds is the file that the names among the parts spell. -/
theorem directory_openFile (hd : d.Stores c) {s : String} {f : FileReference}
    (hf : d.find? s = some f) :
    ∃ name bytes, (name, bytes) ∈ c.files ∧ segments name.toList = pathOf f.name.toList ∧
      d.openFile f = .ok (.ofBytes bytes) := by
  obtain ⟨-, -, -, -, hfile⟩ := (Directory.find?_iff hd).mp hf
  obtain ⟨bytes, hfile⟩ := Option.isSome_iff_exists.mp hfile
  obtain ⟨name, hmem, hpath⟩ := Contents.file?_eq_some_iff.mp hfile
  exact ⟨name, bytes, hmem, hpath, Directory.openFile_of_find? hd hf hfile⟩

/-- A file that both have found is the same in both. -/
theorem openFile_eq (hd : d.Stores c) (ha : a.Stores c) {s : String} {f g : FileReference}
    (hf : d.find? s = some f) (hg : a.find? s = some g) : d.openFile f = a.openFile g := by
  obtain ⟨bytes, hmem, hopen⟩ := Archive.openFile_of_find? ha hg
  have hname : g.name = f.name :=
    Option.some.inj ((Archive.find?_iff.mp hg).1.symm.trans ((Directory.find?_iff hd).mp hf).1)
  have hfile : c.file? (pathOf f.name.toList) = some bytes := by
    rw [← hname, pathOf_of_plain (c.plain_of_mem hmem)]
    exact Contents.file?_eq_some_iff.mpr ⟨g.name, hmem, rfl⟩
  rw [hopen, Directory.openFile_of_find? hd hf hfile]

/-- A directory and an archive with the same files agree on names in which no part is empty or a
single dot: both find a file or none, in the same words, and it has the same size and bytes.
Under any other name the archive finds nothing, while the directory finds the file that the names
among the parts spell. -/
theorem stores_agree (hd : d.Stores c) (ha : a.Stores c) (s : String) :
    (a.find? s).map FileReference.name =
        ((d.find? s).map FileReference.name).filter plain ∧
      (∀ f g, d.find? s = some f → a.find? s = some g →
        ∃ bytes, (f.name, bytes) ∈ c.files ∧
          d.openFile f = .ok (.ofBytes bytes) ∧ a.openFile g = .ok (.ofBytes bytes)) ∧
      ∀ f, d.find? s = some f →
        ∃ name bytes, (name, bytes) ∈ c.files ∧ segments name.toList = pathOf f.name.toList ∧
          d.openFile f = .ok (.ofBytes bytes) := by
  refine ⟨archive_find?_eq hd ha s, fun f g hf hg => ?_, fun f hf => directory_openFile hd hf⟩
  obtain ⟨bytes, hmem, hopen⟩ := Archive.openFile_of_find? ha hg
  have hname : g.name = f.name :=
    Option.some.inj ((Archive.find?_iff.mp hg).1.symm.trans ((Directory.find?_iff hd).mp hf).1)
  exact ⟨bytes, hname ▸ hmem, (openFile_eq hd ha hf hg).trans hopen, hopen⟩

end agreement

section spread

/-- Two files in two folders. -/
def spread : Contents where
  files := [("a/b.png", [7]), ("c/d.dds", [8, 9])]
  distinct := by decide
  proper := by decide +kernel
  forward := by decide +kernel
  separate := by decide +kernel

def spreadDirectory : Directory where
  tree :=
    { files :=
        [([['p'], ['c'], ['d', '.', 'd', 'd', 's']], [8, 9]),
          ([['p'], ['a'], ['b', '.', 'p', 'n', 'g']], [7])]
      folders := [[['p'], ['c']], [['p'], ['a']]] }
  root := [['p']]
  label := "p"

/-- The bytes of an archive whose second file is compressed. -/
def spreadArchiveBytes : Bytes :=
  [0x50, 0x4B, 3, 4, 20, 0, 0, 0, 0, 0, 0, 0, 33, 0, 0x2E, 0x7A, 0x66, 0x4C, 1, 0, 0, 0, 1, 0, 0,
    0, 7, 0, 0, 0, 97, 47, 98, 46, 112, 110, 103, 7, 0x50, 0x4B, 3, 4, 20, 0, 0, 0, 8, 0, 0, 0, 33,
    0, 0x53, 0x20, 0xDC, 0xF0, 4, 0, 0, 0, 2, 0, 0, 0, 7, 0, 0, 0, 99, 47, 100, 46, 100, 100, 115,
    0xE3, 0xE0, 4, 0, 0x50, 0x4B, 1, 2, 20, 0, 20, 0, 0, 0, 0, 0, 0, 0, 33, 0, 0x2E, 0x7A, 0x66,
    0x4C, 1, 0, 0, 0, 1, 0, 0, 0, 7, 0, 0, 0, 0, 0, 0, 0, 0, 0, 0, 0, 128, 1, 0, 0, 0, 0, 97, 47,
    98, 46, 112, 110, 103, 0x50, 0x4B, 1, 2, 20, 0, 20, 0, 0, 0, 8, 0, 0, 0, 33, 0, 0x53, 0x20,
    0xDC, 0xF0, 4, 0, 0, 0, 2, 0, 0, 0, 7, 0, 0, 0, 0, 0, 0, 0, 0, 0, 0, 0, 128, 1, 38, 0, 0, 0, 99,
    47, 100, 46, 100, 100, 115, 0x50, 0x4B, 5, 6, 0, 0, 0, 0, 2, 0, 2, 0, 106, 0, 0, 0, 79, 0, 0, 0,
    0, 0]

def spreadArchive : Archive where
  data := spreadArchiveBytes
  label := "p.zip"
  entries :=
    [⟨[97, 47, 98, 46, 112, 110, 103], "a/b.png", "", false, false, 0, 0x4C667A2E, 1, 1, 0⟩,
      ⟨[99, 47, 100, 46, 100, 100, 115], "c/d.dds", "", false, false, 8, 0xF0DC2053, 4, 2, 38⟩]

theorem spreadDirectory_stores : spreadDirectory.Stores spread :=
  Directory.stores_of_save (t := .empty) (fun _ => rfl) (by rfl)

theorem spreadArchive_stores : spreadArchive.Stores spread where
  listed := by decide +kernel
  held := by
    intro e he
    rcases List.mem_cons.mp he with rfl | he
    · exact ⟨[7], by decide +kernel, by decide +kernel, 37, by decide +kernel, by decide +kernel⟩
    · obtain rfl := List.mem_singleton.mp he
      exact ⟨[8, 9], by decide +kernel, by decide +kernel, 75, by decide +kernel,
        by decide +kernel⟩

/-- Both find either file, however its separators are written, and read the same bytes of it. With
a doubled separator only the directory finds it. -/
theorem stores_agree_backslashes :
    (Archive.ofBytes? spreadArchiveBytes "p.zip").map Archive.entries =
        some spreadArchive.entries ∧
      spreadDirectory.Stores spread ∧ spreadArchive.Stores spread ∧
      (∃ f g, spreadDirectory.find? "\\a\\b.png" = some f ∧
        spreadArchive.find? "\\a\\b.png" = some g ∧ f.name = "a/b.png" ∧ g.name = "a/b.png" ∧
        spreadDirectory.openFile f = .ok (.ofBytes [7]) ∧
        spreadArchive.openFile g = .ok (.ofBytes [7])) ∧
      (∃ f g, spreadDirectory.find? "c\\d.dds" = some f ∧
        spreadArchive.find? "c\\d.dds" = some g ∧ f.name = "c/d.dds" ∧ g.name = "c/d.dds" ∧
        spreadDirectory.openFile f = .ok (.ofBytes [8, 9]) ∧
        spreadArchive.openFile g = .ok (.ofBytes [8, 9])) ∧
      ∃ f, spreadDirectory.find? "c//d.dds" = some f ∧
        spreadDirectory.openFile f = .ok (.ofBytes [8, 9]) ∧
        spreadArchive.find? "c//d.dds" = none := by
  have hd := spreadDirectory_stores
  have ha := spreadArchive_stores
  refine ⟨by decide +kernel, hd, ha, ?_, ?_, ?_⟩
  · have hf : spreadDirectory.find? "\\a\\b.png" = some ⟨"a/b.png", 0⟩ := by decide +kernel
    have hg : spreadArchive.find? "\\a\\b.png" = some ⟨"a/b.png", 0⟩ := by decide +kernel
    obtain ⟨bytes, hmem, hopen, hopen'⟩ := (stores_agree hd ha _).2.1 _ _ hf hg
    obtain rfl : bytes = [7] := by simpa [spread] using hmem
    exact ⟨_, _, hf, hg, rfl, rfl, hopen, hopen'⟩
  · have hf : spreadDirectory.find? "c\\d.dds" = some ⟨"c/d.dds", 0⟩ := by decide +kernel
    have hg : spreadArchive.find? "c\\d.dds" = some ⟨"c/d.dds", 1⟩ := by decide +kernel
    obtain ⟨bytes, hmem, hopen, hopen'⟩ := (stores_agree hd ha _).2.1 _ _ hf hg
    obtain rfl : bytes = [8, 9] := by simpa [spread] using hmem
    exact ⟨_, _, hf, hg, rfl, rfl, hopen, hopen'⟩
  · have hf : spreadDirectory.find? "c//d.dds" = some ⟨"c//d.dds", 0⟩ := by decide +kernel
    obtain ⟨hnames, -, hfound⟩ := stores_agree hd ha "c//d.dds"
    obtain ⟨name, bytes, hmem, hparts, hopen⟩ := hfound _ hf
    have hname : name = "c/d.dds" :=
      String.toList_inj.mp (segments_injective (hparts.trans (by decide +kernel)))
    obtain rfl : bytes = [8, 9] := by simpa [spread, hname] using hmem
    -- The part between the separators has no name, so the archive has no such entry.
    rw [hf, Option.map_some, Option.filter_some, if_neg (by decide +kernel)] at hnames
    exact ⟨_, hf, hopen, Option.map_eq_none_iff.mp hnames⟩

end spread

section lone

def lone : Contents where
  files := [("a/b.png", [7])]
  distinct := by decide
  proper := by decide +kernel
  forward := by decide +kernel
  separate := by decide +kernel

def loneDirectory : Directory where
  tree :=
    { files := [([['p'], ['a'], ['b', '.', 'p', 'n', 'g']], [7])]
      folders := [[['p'], ['a']]] }
  root := [['p']]
  label := "p"

/-- The bytes of an archive with one file, which is not compressed. -/
def loneArchiveBytes : Bytes :=
  [0x50, 0x4B, 3, 4, 20, 0, 0, 0, 0, 0, 0, 0, 33, 0, 0x2E, 0x7A, 0x66, 0x4C, 1, 0, 0, 0, 1, 0, 0,
    0, 7, 0, 0, 0, 97, 47, 98, 46, 112, 110, 103, 7, 0x50, 0x4B, 1, 2, 20, 0, 20, 0, 0, 0, 0, 0, 0,
    0, 33, 0, 0x2E, 0x7A, 0x66, 0x4C, 1, 0, 0, 0, 1, 0, 0, 0, 7, 0, 0, 0, 0, 0, 0, 0, 0, 0, 0, 0,
    128, 1, 0, 0, 0, 0, 97, 47, 98, 46, 112, 110, 103, 0x50, 0x4B, 5, 6, 0, 0, 0, 0, 1, 0, 1, 0, 53,
    0, 0, 0, 38, 0, 0, 0, 0, 0]

def loneArchive : Archive where
  data := loneArchiveBytes
  label := "p.zip"
  entries :=
    [⟨[97, 47, 98, 46, 112, 110, 103], "a/b.png", "", false, false, 0, 0x4C667A2E, 1, 1, 0⟩]

theorem loneDirectory_stores : loneDirectory.Stores lone :=
  Directory.stores_of_save (t := .empty) (fun _ => rfl) (by rfl)

theorem loneArchive_stores : loneArchive.Stores lone where
  listed := by decide +kernel
  held := by
    intro e he
    obtain rfl := List.mem_singleton.mp he
    exact ⟨[7], by decide +kernel, by decide +kernel, 37, by decide +kernel, by decide +kernel⟩

/-- A doubled separator is one to a file system, and part of another name to an archive. -/
theorem doubled_separator_divides :
    (Archive.ofBytes? loneArchiveBytes "p.zip").map Archive.entries = some loneArchive.entries ∧
      loneDirectory.Stores lone ∧ loneArchive.Stores lone ∧
      loneDirectory.find? "a//b.png" = some ⟨"a//b.png", 0⟩ ∧
      loneArchive.find? "a//b.png" = none :=
  ⟨by decide +kernel, loneDirectory_stores, loneArchive_stores, by decide +kernel,
    by decide +kernel⟩

end lone

end TexturePack.Files
