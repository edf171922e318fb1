import Mathlib
import TexturePack.Proofs.Files.Name

/-! Files kept loose below a root. A name is followed part by part, and it leads to a file if its
last part is a name and the names among its parts are those of the file. -/
namespace TexturePack.Files

/-- Files under relative names in their normal form, none of which is a folder of another. -/
structure Contents where
  files : List (String × Bytes)
  distinct : (files.map Prod.fst).Nodup
  proper : ∀ f ∈ files, ∀ part ∈ segments f.1.toList,
    part ≠ [] ∧ part ≠ ['.'] ∧ part ≠ ['.', '.']
  forward : ∀ f ∈ files, '\\' ∉ f.1.toList
  separate : ∀ f ∈ files, ∀ g ∈ files,
    ¬Tree.isProperPrefix (segments f.1.toList) (segments g.1.toList)

/-- Parts of a name that go down to a folder or a file. -/
abbrev Named (part : List Char) : Prop := part ≠ [] ∧ part ≠ ['.']

/-- No part of the name is left out on the way. -/
def plain (name : String) : Bool := (segments name.toList).all fun part => decide (Named part)

namespace Contents

variable {c : Contents} {p q : Path} {bytes : Bytes}

def file? (c : Contents) (p : Path) : Option Bytes :=
  (c.files.find? fun f => segments f.1.toList = p).map Prod.snd

theorem file?_eq_some_iff :
    c.file? p = some bytes ↔ ∃ name, (name, bytes) ∈ c.files ∧ segments name.toList = p := by
  constructor
  · intro h
    obtain ⟨⟨name, bytes'⟩, hf, rfl⟩ := Option.map_eq_some_iff.mp h
    exact ⟨name, List.mem_of_find?_eq_some hf, by simpa using List.find?_some hf⟩
  · rintro ⟨name, hmem, hp⟩
    rcases hf : c.files.find? fun f => segments f.1.toList = p with _ | ⟨name', bytes'⟩
    · exact absurd (by simpa using hp) (List.find?_eq_none.mp hf _ hmem)
    · have hmem' := List.mem_of_find?_eq_some hf
      have hp' : segments name'.toList = p := by simpa using List.find?_some hf
      obtain rfl : name' = name := String.toList_inj.mp (segments_injective (hp'.trans hp.symm))
      have hsame := List.inj_on_of_nodup_map c.distinct hmem' hmem rfl
      rw [file?, hf, hsame]
      rfl

/-- There is nothing below a file. -/
theorem file?_append (h : (c.file? p).isSome) (hq : q ≠ []) : c.file? (p ++ q) = none := by
  obtain ⟨bytes, hp⟩ := Option.isSome_iff_exists.mp h
  obtain ⟨name, hmem, rfl⟩ := file?_eq_some_iff.mp hp
  rw [Option.eq_none_iff_forall_ne_some]
  intro bytes' hpq
  obtain ⟨name', hmem', hpath⟩ := file?_eq_some_iff.mp hpq
  refine c.separate _ hmem _ hmem' ?_
  simp [Tree.isProperPrefix, hpath, List.length_pos_iff.mpr hq]

theorem normal {name : String} (h : (name, bytes) ∈ c.files) : Normal name.toList where
  nonempty := by
    intro hnil
    exact (c.proper _ h [] (by simp [hnil, segments])).1 rfl
  relative := by
    intro hhead
    obtain ⟨cs, hcs⟩ := List.head?_eq_some_iff.mp hhead
    exact (c.proper _ h [] (by simp [hcs, segments])).1 rfl
  inside := fun hmem => (c.proper _ h _ hmem).2.2 rfl
  forward := c.forward _ h

theorem plain_of_mem {name : String} (h : (name, bytes) ∈ c.files) : plain name := by
  simp only [plain, List.all_eq_true, decide_eq_true_eq]
  exact fun part hp => ⟨(c.proper _ h part hp).1, (c.proper _ h part hp).2.1⟩

end Contents

namespace Tree

variable {t : Tree} {c : Contents} {root q : Path} {bytes : Bytes}

theorem isFolder_of_file? {p : Path} (hf : t.file? (p ++ q) = some bytes) (hq : q ≠ []) :
    t.isFolder p := by
  obtain ⟨f, hf, -⟩ := Option.map_eq_some_iff.mp hf
  have hpath : f.1 = p ++ q := by simpa using List.find?_some hf
  have hany : t.files.any (fun f => isProperPrefix p f.1) := by
    refine List.any_eq_true.mpr ⟨f, List.mem_of_find?_eq_some hf, ?_⟩
    simp [isProperPrefix, hpath, List.length_pos_iff.mpr hq]
  simp [isFolder, hany]

theorem not_named_iff {part : List Char} : ¬Named part ↔ part = [] ∨ part = ['.'] := by
  rw [not_and_or, not_not, not_not]

theorem step_skip {p : Path} {part : List Char} (h : ¬Named part) :
    t.step (.folder p) part = .ok (.folder p) := by
  simp [step, not_named_iff.mp h]

theorem step_file {p : Path} {part : List Char} (h : Named part) (hup : part ≠ ['.', '.'])
    (hsize : (String.ofList part).utf8ByteSize ≤ maxNameBytes)
    (hfile : t.file? (p ++ [part]) = some bytes) :
    t.step (.folder p) part = .ok (.file bytes) := by
  simp [step, h.1, h.2, hup, Nat.not_lt.mpr hsize, hfile]

theorem step_folder {p : Path} {part : List Char} (h : Named part) (hup : part ≠ ['.', '.'])
    (hsize : (String.ofList part).utf8ByteSize ≤ maxNameBytes)
    (hfile : t.file? (p ++ [part]) = none) :
    t.step (.folder p) part =
      if t.isFolder (p ++ [part]) then .ok (.folder (p ++ [part])) else .error .notFound := by
  simp [step, h.1, h.2, hup, Nat.not_lt.mpr hsize, hfile]

theorem step_tooLong {p : Path} {part : List Char} (h : Named part) (hup : part ≠ ['.', '.'])
    (hsize : maxNameBytes < (String.ofList part).utf8ByteSize) :
    t.step (.folder p) part = .error .nameTooLong := by
  simp [step, h.1, h.2, hup, hsize]

/-- Nothing leads on from a file. -/
theorem follow_file_iff {parts : Path} {content : Bytes} :
    parts.foldlM t.step (.file content) = .ok (.file bytes) ↔ parts = [] ∧ content = bytes := by
  cases parts with
  | nil => simp [pure, Except.pure]
  | cons part parts => simp [List.foldlM_cons, step, bind, Except.bind]

theorem getLast?_cons_named {part : List Char} {parts : Path} :
    (∃ last, (part :: parts).getLast? = some last ∧ Named last) ↔
      parts = [] ∧ Named part ∨ ∃ last, parts.getLast? = some last ∧ Named last := by
  cases parts with
  | nil => simp
  | cons next parts => simp [List.getLast?_cons_cons]

/-- The parts of a name lead to a file if the last of them is a name, and all names among them
are the folders of the file and its own name. -/
theorem follow_iff (hfiles : ∀ p, t.file? (root ++ p) = c.file? p) {parts : Path}
    (hup : ['.', '.'] ∉ parts) :
    parts.foldlM t.step (.folder (root ++ q)) = .ok (.file bytes) ↔
      (∃ last, parts.getLast? = some last ∧ Named last) ∧
        (∀ part ∈ parts, (String.ofList part).utf8ByteSize ≤ maxNameBytes) ∧
        c.file? (q ++ parts.filter fun part => Named part) = some bytes := by
  induction parts generalizing q with
  | nil => simp [pure, Except.pure]
  | cons part parts ih =>
    obtain ⟨hpart, hup⟩ := not_or.mp (mt List.mem_cons.mpr hup)
    rw [List.foldlM_cons, getLast?_cons_named, List.forall_mem_cons]
    by_cases hn : Named part
    case neg =>
      have hsize : (String.ofList part).utf8ByteSize ≤ maxNameBytes := by
        rcases not_named_iff.mp hn with rfl | rfl <;> decide
      rw [step_skip hn, List.filter_cons_of_neg (by simpa using hn)]
      simp only [hn, and_false, false_or, hsize, true_and]
      exact ih hup
    rw [List.filter_cons_of_pos (by simpa using hn)]
    by_cases hsize : (String.ofList part).utf8ByteSize ≤ maxNameBytes
    case neg =>
      rw [step_tooLong hn (Ne.symm hpart) (Nat.not_le.mp hsize)]
      simp [hsize, bind, Except.bind]
    simp only [hsize, true_and]
    rw [List.append_cons]
    have hroot : root ++ q ++ [part] = root ++ (q ++ [part]) := List.append_assoc ..
    rcases hfile : c.file? (q ++ [part]) with _ | content
    · have hno : t.file? (root ++ q ++ [part]) = none := by rw [hroot, hfiles, hfile]
      rw [step_folder hn (Ne.symm hpart) hsize hno, hroot]
      split
      case isTrue hfolder =>
        refine (ih hup).trans (and_congr_left fun hrest => ⟨.inr, ?_⟩)
        rintro (⟨rfl, -⟩ | hlast)
        · simp [hfile] at hrest
        · exact hlast
      case isFalse hfolder =>
        refine ⟨nofun, fun ⟨hlast, _, hrest⟩ => absurd ?_ hfolder⟩
        refine isFolder_of_file? (q := parts.filter fun part => Named part)
          (by rw [List.append_assoc, hfiles, hrest]) ?_
        rintro hnil
        rw [hnil, List.append_nil, hfile] at hrest
        cases hrest
    · have hyes : t.file? (root ++ q ++ [part]) = some content := by rw [hroot, hfiles, hfile]
      rw [step_file hn (Ne.symm hpart) hsize hyes]
      refine follow_file_iff.trans ⟨?_, ?_⟩
      · rintro ⟨rfl, rfl⟩
        exact ⟨.inl ⟨rfl, hn⟩, by simp, by simpa using hfile⟩
      · rintro ⟨hlast, -, hrest⟩
        have hnil : (parts.filter fun part => Named part) = [] := by
          by_contra hne
          rw [c.file?_append (Option.isSome_of_eq_some hfile) hne] at hrest
          cases hrest
        rcases hlast with ⟨rfl, -⟩ | ⟨last, hlast, hnamed⟩
        · exact ⟨rfl, by simpa [hfile] using hrest⟩
        · have hmem := List.filter_eq_nil_iff.mp hnil last (List.mem_of_getLast? hlast)
          exact absurd (by simpa using hnamed) hmem

end Tree

/-- Whether a name ends with the name of a file or folder. -/
def EndsNamed (name : List Char) : Prop :=
  ∃ last, (segments name).getLast? = some last ∧ Named last

namespace Directory

/-- The file system takes the name, below the root. -/
structure Reaches (d : Directory) (name : List Char) : Prop where
  whole : Tree.checkName d.root name = .ok ()
  parts : ∀ part ∈ segments name, (String.ofList part).utf8ByteSize ≤ Tree.maxNameBytes

/-- The files below the root are just these, each of them under a name that the file system
takes. There may be any others beside the root, and folders without files. -/
structure Stores (d : Directory) (c : Contents) : Prop where
  files : ∀ p, d.tree.file? (d.root ++ p) = c.file? p
  reached : ∀ f ∈ c.files, d.Reaches f.1.toList

variable {d : Directory} {c : Contents} {s name : String} {f : FileReference} {bytes : Bytes}

theorem resolve_eq {cs : List Char} (h : Normal cs) :
    d.tree.resolve d.root cs =
      (Tree.checkName d.root cs).bind fun _ =>
        (segments cs).foldlM d.tree.step (.folder d.root) := by
  simp [Tree.resolve, Tree.origin, h.relative, bind]

theorem resolve_iff (hd : d.Stores c) {cs : List Char} (h : Normal cs) :
    d.tree.resolve d.root cs = .ok (.file bytes) ↔
      EndsNamed cs ∧ d.Reaches cs ∧ c.file? (pathOf cs) = some bytes := by
  have hfollow : (segments cs).foldlM d.tree.step (.folder (d.root ++ [])) =
      .ok (.file bytes) ↔ _ := Tree.follow_iff hd.files h.inside
  rw [List.append_nil, List.nil_append] at hfollow
  rw [resolve_eq h]
  rcases hc : Tree.checkName d.root cs with _ | _
  · refine ⟨nofun, fun ⟨_, hreach, _⟩ => ?_⟩
    rw [hreach.whole] at hc
    cases hc
  · exact hfollow.trans
      ⟨fun ⟨hlast, hparts, hfile⟩ => ⟨hlast, ⟨hc, hparts⟩, hfile⟩,
        fun ⟨hlast, hreach, hfile⟩ => ⟨hlast, hreach.parts, hfile⟩⟩

/-- A directory finds the file to which the names among the parts lead. -/
theorem find?_iff (hd : d.Stores c) :
    d.find? s = some f ↔
      lookupName? s = some f.name ∧ f.index = 0 ∧ EndsNamed f.name.toList ∧
        d.Reaches f.name.toList ∧ (c.file? (pathOf f.name.toList)).isSome := by
  rcases hs : lookupName? s with _ | name
  · simp [find?, hs]
  have hnormal := (lookupName?_eq_some_iff.mp hs).2
  have hresolve (bytes : Bytes) :
      d.tree.resolve d.root name.toList = .ok (.file bytes) ↔ _ := resolve_iff hd hnormal
  constructor
  · intro h
    simp only [find?, hs, Option.bind_eq_bind, Option.bind_some] at h
    split at h
    case h_1 bytes hr =>
      obtain rfl := Option.some.inj h
      obtain ⟨hends, hreach, hfile⟩ := (hresolve bytes).mp hr
      exact ⟨rfl, rfl, hends, hreach, Option.isSome_of_eq_some hfile⟩
    case h_2 => cases h
  · rintro ⟨hname, hindex, hends, hreach, hfile⟩
    obtain rfl := Option.some.inj hname
    obtain ⟨bytes, hfile⟩ := Option.isSome_iff_exists.mp hfile
    have hr := (hresolve bytes).mpr ⟨hends, hreach, hfile⟩
    obtain ⟨name, index⟩ := f
    simp only at hindex
    simp [find?, hs, hr, hindex]

theorem openFile_of_find? (hd : d.Stores c) (h : d.find? s = some f)
    (hfile : c.file? (pathOf f.name.toList) = some bytes) :
    d.openFile f = .ok (.ofBytes bytes) := by
  obtain ⟨hname, -, hends, hreach, -⟩ := (find?_iff hd).mp h
  have hr := (resolve_iff hd (lookupName?_eq_some_iff.mp hname).2).mpr ⟨hends, hreach, hfile⟩
  simp [openFile, hr, bind, Except.bind]

end Directory

theorem pathOf_of_plain {name : String} (h : plain name) :
    pathOf name.toList = segments name.toList := by
  simp only [plain, List.all_eq_true] at h
  exact List.filter_eq_self.mpr h

theorem endsNamed_of_plain {name : String} (h : plain name) : EndsNamed name.toList := by
  simp only [plain, List.all_eq_true, decide_eq_true_eq] at h
  have hlast := List.getLast?_eq_some_getLast (segments_ne_nil name.toList)
  exact ⟨_, hlast, h _ (List.mem_of_getLast? hlast)⟩

theorem Directory.found_iff {c : Contents} {d : Directory} (hd : d.Stores c) {s name : String}
    (hplain : plain name) :
    (d.find? s).map FileReference.name = some name ↔
      lookupName? s = some name ∧ ∃ bytes, (name, bytes) ∈ c.files := by
  constructor
  · intro h
    obtain ⟨f, hf, rfl⟩ := Option.map_eq_some_iff.mp h
    obtain ⟨hs, -, -, -, hfile⟩ := (find?_iff hd).mp hf
    obtain ⟨bytes, hfile⟩ := Option.isSome_iff_exists.mp hfile
    obtain ⟨name, hmem, hpath⟩ := Contents.file?_eq_some_iff.mp hfile
    rw [pathOf_of_plain hplain] at hpath
    exact ⟨hs, bytes, String.toList_inj.mp (segments_injective hpath) ▸ hmem⟩
  · rintro ⟨hs, bytes, hmem⟩
    have hfile : c.file? (pathOf name.toList) = some bytes := by
      rw [pathOf_of_plain hplain]
      exact Contents.file?_eq_some_iff.mpr ⟨name, hmem, rfl⟩
    refine Option.map_eq_some_iff.mpr ⟨⟨name, 0⟩, (find?_iff hd).mpr ?_, rfl⟩
    exact ⟨hs, rfl, endsNamed_of_plain hplain, hd.reached _ hmem, Option.isSome_of_eq_some hfile⟩

section saving

variable {t t' : Tree} {p q : Path} {part : List Char} {content : Bytes}

/-- A step down to a name that is taken leads to a file, to the folder, or nowhere. -/
theorem Tree.step_cases (hn : Named part) (hup : part ≠ ['.', '.'])
    (hsize : (String.ofList part).utf8ByteSize ≤ maxNameBytes) :
    (∃ content, t.step (.folder p) part = .ok (.file content)) ∨
      t.step (.folder p) part = .ok (.folder (p ++ [part])) ∨
      t.step (.folder p) part = .error .notFound := by
  rcases hfile : t.file? (p ++ [part]) with _ | content
  · rw [step_folder hn hup hsize hfile]
    split
    · exact .inr (.inl rfl)
    · exact .inr (.inr rfl)
  · exact .inl ⟨content, step_file hn hup hsize hfile⟩

theorem Tree.enter_ok (hn : Named part) (hup : part ≠ ['.', '.'])
    (h : Tree.enter (t, p) part = .ok (t', q)) :
    (String.ofList part).utf8ByteSize ≤ maxNameBytes ∧ q = p ++ [part] ∧ t'.files = t.files := by
  by_cases hsize : (String.ofList part).utf8ByteSize ≤ maxNameBytes
  case neg => simp [Tree.enter, step_tooLong hn hup (Nat.not_le.mp hsize)] at h
  obtain ⟨content, hs⟩ | hs | hs := step_cases (t := t) (p := p) hn hup hsize
  · simp [Tree.enter, hs] at h
  · simp only [Tree.enter, hs, Except.ok.injEq, Prod.mk.injEq] at h
    exact ⟨hsize, h.2.symm, by rw [h.1]⟩
  · simp only [Tree.enter, hs, Except.ok.injEq, Prod.mk.injEq] at h
    exact ⟨hsize, h.2.symm, by rw [← h.1]⟩

theorem Tree.enterAll_ok {parts : Path} (hn : ∀ part ∈ parts, Named part ∧ part ≠ ['.', '.'])
    (h : parts.foldlM Tree.enter (t, p) = .ok (t', q)) :
    (∀ part ∈ parts, (String.ofList part).utf8ByteSize ≤ maxNameBytes) ∧
      q = p ++ parts ∧ t'.files = t.files := by
  induction parts generalizing t p with
  | nil =>
    cases h
    simp
  | cons part parts ih =>
    rw [List.foldlM_cons] at h
    rcases he : Tree.enter (t, p) part with _ | ⟨t₁, p₁⟩
    · simp [he, bind, Except.bind] at h
    rw [he] at h
    obtain ⟨hpart, hparts⟩ := List.forall_mem_cons.mp hn
    obtain ⟨hsize, rfl, hfiles⟩ := enter_ok hpart.1 hpart.2 he
    obtain ⟨hsizes, rfl, hfiles'⟩ := ih hparts h
    exact ⟨List.forall_mem_cons.mpr ⟨hsize, hsizes⟩, by simp, hfiles'.trans hfiles⟩

/-- What a path stands for once the file of some path has been replaced. -/
theorem find?_replaced (files : List (Path × Bytes)) (p q : Path) (content : Bytes) :
    ((((p, content) :: files.filter fun f => f.1 ≠ p).find? fun f => f.1 = q).map Prod.snd) =
      if q = p then some content else (files.find? fun f => f.1 = q).map Prod.snd := by
  split
  case isTrue hq => simp [hq]
  case isFalse hq =>
    have hsame : ∀ f : Path × Bytes,
        (decide (f.1 ≠ p) = true ∧ decide (f.1 = q) = true) ↔ f.1 = q := by
      intro f
      by_cases hf : f.1 = q <;> simp [hf, hq]
    rw [List.find?_cons_of_neg (by simpa using Ne.symm hq), List.find?_filter]
    simp only [hsame]

theorem Tree.write_ok (hn : Named part) (hup : part ≠ ['.', '.'])
    (h : t.write p part content = .ok t') :
    (String.ofList part).utf8ByteSize ≤ maxNameBytes ∧
      ∀ q, t'.file? q = if q = p ++ [part] then some content else t.file? q := by
  by_cases hsize : (String.ofList part).utf8ByteSize ≤ maxNameBytes
  case neg => simp [Tree.write, step_tooLong hn hup (Nat.not_le.mp hsize)] at h
  obtain ⟨old, hs⟩ | hs | hs := step_cases (t := t) (p := p) hn hup hsize
  · simp only [Tree.write, hs, Except.ok.injEq] at h
    exact ⟨hsize, fun q => h ▸ find?_replaced t.files (p ++ [part]) q content⟩
  · simp [Tree.write, hs] at h
  · simp only [Tree.write, hs, Except.ok.injEq] at h
    exact ⟨hsize, fun q => h ▸ find?_replaced t.files (p ++ [part]) q content⟩

/-- A file that is saved is there, and all others stay. -/
theorem Tree.save_ok {root : Path} {name : List Char} (hname : Normal name)
    (hn : ∀ part ∈ segments name, Named part) (h : t.save root name content = .ok t') :
    checkName root name = .ok () ∧
      (∀ part ∈ segments name, (String.ofList part).utf8ByteSize ≤ maxNameBytes) ∧
      ∀ q, t'.file? q = if q = root ++ segments name then some content else t.file? q := by
  have horigin : origin root name = root := if_neg hname.relative
  have hup : ∀ part ∈ segments name, part ≠ ['.', '.'] := fun _ hp hdots =>
    hname.inside (hdots ▸ hp)
  obtain ⟨folders, last, hparts⟩ :=
    (List.eq_nil_or_concat (segments name)).resolve_left (segments_ne_nil name)
  rw [List.concat_eq_append] at hparts
  rw [hparts] at hn hup ⊢
  rcases hc : checkName root name with _ | _
  · simp [Tree.save, hc, bind, Except.bind] at h
  rcases hf : folders.foldlM Tree.enter (t, root) with _ | ⟨t₁, folder⟩
  · simp [Tree.save, hc, hparts, horigin, hf, bind, Except.bind] at h
  have hw : t₁.write folder last content = .ok t' := by
    simpa [Tree.save, hc, hparts, horigin, hf, bind, Except.bind] using h
  obtain ⟨hsizes, rfl, hfiles⟩ := enterAll_ok
    (fun part hp => ⟨hn part (List.mem_append_left _ hp), hup part (List.mem_append_left _ hp)⟩) hf
  obtain ⟨hsize, hread⟩ := write_ok (hn last (by simp)) (hup last (by simp)) hw
  refine ⟨rfl, by simpa [or_imp, forall_and] using ⟨hsizes, hsize⟩, fun q => ?_⟩
  rw [hread q, file?, hfiles, List.append_assoc]
  rfl

theorem Tree.saveAll_ok {root : Path} {files : List (String × Bytes)}
    (hdistinct : (files.map Prod.fst).Nodup)
    (hname : ∀ f ∈ files, Normal f.1.toList ∧ ∀ part ∈ segments f.1.toList, Named part)
    (h : files.foldlM (fun t f => t.save root f.1.toList f.2) t = .ok t') :
    (∀ f ∈ files, checkName root f.1.toList = .ok () ∧
        ∀ part ∈ segments f.1.toList, (String.ofList part).utf8ByteSize ≤ maxNameBytes) ∧
      ∀ q, t'.file? (root ++ q) =
        ((files.find? fun f => segments f.1.toList = q).map Prod.snd).or (t.file? (root ++ q)) := by
  induction files generalizing t with
  | nil =>
    cases h
    simp
  | cons f files ih =>
    rw [List.foldlM_cons] at h
    rcases hs : t.save root f.1.toList f.2 with _ | t₁
    · simp [hs, bind, Except.bind] at h
    rw [hs] at h
    obtain ⟨hnew, hdistinct⟩ := List.nodup_cons.mp hdistinct
    obtain ⟨hf, hname⟩ := List.forall_mem_cons.mp hname
    obtain ⟨hwhole, hparts, hread⟩ := save_ok hf.1 hf.2 hs
    obtain ⟨hreach, hall⟩ := ih hdistinct hname h
    refine ⟨List.forall_mem_cons.mpr ⟨⟨hwhole, hparts⟩, hreach⟩, fun q => ?_⟩
    rw [hall, hread]
    simp only [List.append_cancel_left_eq]
    by_cases hq : q = segments f.1.toList
    · have hnone : files.find? (fun g => segments g.1.toList = q) = none := by
        refine List.find?_eq_none.mpr fun g hg hsame => hnew ?_
        have hgf := segments_injective ((of_decide_eq_true hsame).trans hq)
        exact List.mem_map.mpr ⟨g, hg, String.toList_inj.mp hgf⟩
      rw [hnone, List.find?_cons_of_pos (by simp [hq]), if_pos hq]
      rfl
    · rw [List.find?_cons_of_neg (by simpa using Ne.symm hq), if_neg hq]

/-- Files that are saved one after the other below a root with nothing else are stored there. -/
theorem Directory.stores_of_save {c : Contents} {root : Path} {label : String}
    (hempty : ∀ p, t.file? (root ++ p) = none)
    (h : c.files.foldlM (fun t f => t.save root f.1.toList f.2) t = .ok t') :
    (Directory.mk t' root label).Stores c := by
  have hgood (f : String × Bytes) (hf : f ∈ c.files) :
      Normal f.1.toList ∧ ∀ part ∈ segments f.1.toList, Named part :=
    ⟨c.normal hf, fun part hp => ⟨(c.proper f hf part hp).1, (c.proper f hf part hp).2.1⟩⟩
  obtain ⟨hreach, hread⟩ := Tree.saveAll_ok c.distinct hgood h
  refine ⟨fun p => ?_, fun f hf => ⟨(hreach f hf).1, (hreach f hf).2⟩⟩
  rw [hread, hempty, Option.or_none]
  rfl

end saving

end TexturePack.Files
