import Mathlib
import TexturePack.Proofs.Files.Directory

/-! A file that is saved can be read. The folders that are entered or made on the way to it stay
folders, so its name leads through them again, whatever parts it has. -/
namespace TexturePack.Files.Tree

variable {t t' : Tree} {p q : Path} {part : List Char} {content : Bytes}

/-- A path of a folder, at which there is no file. -/
def Opens (t : Tree) (p : Path) : Prop := t.file? p = none ∧ t.isFolder p = true

/-- No folder goes missing from one tree to another. -/
def Keeps (t t' : Tree) : Prop := ∀ ⦃p⦄, t.Opens p → t'.Opens p

theorem Keeps.refl (t : Tree) : t.Keeps t := fun _ hp => hp

theorem Keeps.trans {t'' : Tree} (h : t.Keeps t') (h' : t'.Keeps t'') : t.Keeps t'' :=
  fun _ hp => h' (h hp)

/-- A part that goes down to a file or a folder, if there is one. -/
structure Descends (part : List Char) : Prop where
  named : Named part
  not_up : part ≠ ['.', '.']
  size_le : (String.ofList part).utf8ByteSize ≤ maxNameBytes

/-- Where a part does not go down it stays, goes up or is refused, whatever the tree holds. -/
theorem step_of_not_descends (h : ¬Descends part) (p : Path) :
    (∃ q, ∀ t : Tree, t.step (.folder p) part = .ok (.folder q)) ∨
      ∀ t : Tree, t.step (.folder p) part = .error .nameTooLong := by
  by_cases hn : Named part
  case neg => exact .inl ⟨p, fun t => step_skip hn⟩
  by_cases hup : part = ['.', '.']
  case pos => exact .inl ⟨p.dropLast, fun t => by simp [step, hup]⟩
  exact .inr fun t => step_tooLong hn hup (Nat.not_le.mp fun hsize => h ⟨hn, hup, hsize⟩)

theorem Descends.step_cases (h : Descends part) (t : Tree) (p : Path) :
    (∃ content, t.step (.folder p) part = .ok (.file content)) ∨
      t.Opens (p ++ [part]) ∧ t.step (.folder p) part = .ok (.folder (p ++ [part])) ∨
      ¬t.Opens (p ++ [part]) ∧ t.file? (p ++ [part]) = none ∧
        t.step (.folder p) part = .error .notFound := by
  rcases hfile : t.file? (p ++ [part]) with _ | content
  · rw [step_folder h.named h.not_up h.size_le hfile]
    split_ifs with hfolder
    · exact .inr (.inl ⟨⟨hfile, hfolder⟩, rfl⟩)
    · exact .inr (.inr ⟨fun hopens => hfolder hopens.2, rfl, rfl⟩)
  · exact .inl ⟨content, step_file h.named h.not_up h.size_le hfile⟩

theorem Descends.step_of_opens (h : Descends part) (hopens : t.Opens (p ++ [part])) :
    t.step (.folder p) part = .ok (.folder (p ++ [part])) := by
  rw [step_folder h.named h.not_up h.size_le hopens.1, if_pos hopens.2]

/-- Steps from folder to folder stay. -/
theorem Keeps.step (hkeep : t.Keeps t') (h : t.step (.folder p) part = .ok (.folder q)) :
    t'.step (.folder p) part = .ok (.folder q) := by
  by_cases hpart : Descends part
  · obtain ⟨content, hs⟩ | ⟨hopens, hs⟩ | ⟨-, -, hs⟩ := hpart.step_cases t p <;> rw [hs] at h
    · cases h
    · rw [hpart.step_of_opens (hkeep hopens)]
      exact h
    · cases h
  · obtain ⟨q', hs⟩ | hs := step_of_not_descends hpart p
    · rw [hs t', ← hs t, h]
    · rw [hs] at h
      cases h

theorem follow_file_ne_folder (parts : Path) :
    parts.foldlM t.step (.file content) ≠ .ok (.folder q) := by
  cases parts <;> simp [List.foldlM_cons, Tree.step, bind, Except.bind, pure, Except.pure]

theorem Keeps.follow (hkeep : t.Keeps t') {parts : Path}
    (h : parts.foldlM t.step (.folder p) = .ok (.folder q)) :
    parts.foldlM t'.step (.folder p) = .ok (.folder q) := by
  induction parts generalizing p with
  | nil => exact h
  | cons part parts ih =>
    rw [List.foldlM_cons] at h ⊢
    rcases hs : t.step (.folder p) part with _ | ⟨next | file⟩
    · simp [hs, bind, Except.bind] at h
    · rw [hs] at h
      rw [hkeep.step hs]
      exact ih h
    · rw [hs] at h
      exact absurd h (follow_file_ne_folder parts)

/-- A folder that is made is one, and so are those above it. -/
theorem keeps_made (t : Tree) (folder : Path) :
    t.Keeps { t with folders := folder :: t.folders } := by
  rintro p ⟨hfile, hfolder⟩
  refine ⟨hfile, ?_⟩
  simp only [isFolder, List.any_cons, Bool.or_eq_true] at hfolder ⊢
  tauto

theorem enter_keeps (h : enter (t, p) part = .ok (t', q)) :
    t'.step (.folder p) part = .ok (.folder q) ∧ t.Keeps t' := by
  by_cases hpart : Descends part
  · obtain ⟨content, hs⟩ | ⟨hopens, hs⟩ | ⟨-, hfile, hs⟩ := hpart.step_cases t p <;>
      simp only [enter, hs, Except.ok.injEq, Prod.mk.injEq, reduceCtorEq] at h
    · obtain ⟨rfl, rfl⟩ := h
      exact ⟨hs, Keeps.refl t⟩
    · obtain ⟨rfl, rfl⟩ := h
      exact ⟨hpart.step_of_opens ⟨hfile, by simp [isFolder]⟩, keeps_made t _⟩
  · obtain ⟨q', hs⟩ | hs := step_of_not_descends hpart p <;>
      simp only [enter, hs, Except.ok.injEq, Prod.mk.injEq, reduceCtorEq] at h
    obtain ⟨rfl, rfl⟩ := h
    exact ⟨hs _, Keeps.refl _⟩

/-- The parts along which folders were entered or made lead through them. -/
theorem enterAll_keeps {parts : Path} (h : parts.foldlM enter (t, p) = .ok (t', q)) :
    parts.foldlM t'.step (.folder p) = .ok (.folder q) ∧ t.Keeps t' := by
  induction parts generalizing t p with
  | nil =>
    cases h
    exact ⟨rfl, Keeps.refl _⟩
  | cons part parts ih =>
    rw [List.foldlM_cons] at h
    rcases he : enter (t, p) part with _ | ⟨t₁, p₁⟩
    · simp [he, bind, Except.bind] at h
    rw [he] at h
    obtain ⟨hstep, hkeep⟩ := enter_keeps he
    obtain ⟨hsteps, hkeeps⟩ := ih h
    refine ⟨?_, hkeep.trans hkeeps⟩
    rw [List.foldlM_cons, hkeeps.step hstep]
    exact hsteps

/-- A file may take the place of another, or a place where there is nothing. -/
theorem keeps_replaced (h : ¬t.Opens p) (content : Bytes) :
    t.Keeps { t with files := (p, content) :: t.files.filter fun f => f.1 ≠ p } := by
  rintro r ⟨hfile, hfolder⟩
  have hr : r ≠ p := by
    rintro rfl
    exact h ⟨hfile, hfolder⟩
  refine ⟨?_, ?_⟩
  · rw [file?, find?_replaced, if_neg hr]
    exact hfile
  · simp only [isFolder, Bool.or_eq_true] at hfolder ⊢
    refine hfolder.imp_right fun hany => ?_
    obtain ⟨f, hf, hprefix⟩ := List.any_eq_true.mp hany
    by_cases hp : f.1 = p
    · exact List.any_eq_true.mpr ⟨_, List.mem_cons_self, hp ▸ hprefix⟩
    · exact List.any_eq_true.mpr
        ⟨f, List.mem_cons_of_mem _ (List.mem_filter.mpr ⟨hf, by simpa using hp⟩), hprefix⟩

theorem write_keeps (h : t.write p part content = .ok t') :
    t'.step (.folder p) part = .ok (.file content) ∧ t.Keeps t' := by
  by_cases hpart : Descends part
  · have hwritten (hfree : ¬t.Opens (p ++ [part]))
        (ht : { t with
          files := (p ++ [part], content) :: t.files.filter fun f => f.1 ≠ p ++ [part] } = t') :
        t'.step (.folder p) part = .ok (.file content) ∧ t.Keeps t' := by
      subst ht
      refine ⟨step_file hpart.named hpart.not_up hpart.size_le ?_, keeps_replaced hfree content⟩
      rw [file?, find?_replaced, if_pos rfl]
    obtain ⟨old, hs⟩ | ⟨hopens, hs⟩ | ⟨hfree, -, hs⟩ := hpart.step_cases t p <;>
      simp only [write, hs, Except.ok.injEq, reduceCtorEq] at h
    · refine hwritten (fun hopens => ?_) h
      rw [hpart.step_of_opens hopens] at hs
      cases hs
    · exact hwritten hfree h
  · obtain ⟨q', hs⟩ | hs := step_of_not_descends hpart p <;>
      simp only [write, hs, reduceCtorEq] at h

/-- Whatever has been saved is read under the same name. -/
theorem read?_save {start : Path} {name : List Char} (h : t.save start name content = .ok t') :
    t'.read? start name = some content := by
  obtain ⟨folders, last, hparts⟩ :=
    (List.eq_nil_or_concat (segments name)).resolve_left (segments_ne_nil name)
  rw [List.concat_eq_append] at hparts
  rcases hc : checkName start name with _ | _
  · simp [save, hc, bind, Except.bind] at h
  rcases hf : folders.foldlM enter (t, origin start name) with _ | ⟨t₁, folder⟩
  · simp [save, hc, hparts, hf, bind, Except.bind] at h
  have hw : t₁.write folder last content = .ok t' := by
    simpa [save, hc, hparts, hf, bind, Except.bind] using h
  obtain ⟨hfollow, -⟩ := enterAll_keeps hf
  obtain ⟨hlast, hkeep⟩ := write_keeps hw
  have hresolve : t'.resolve start name = .ok (.file content) := by
    simp [resolve, hc, hparts, List.foldlM_append, hkeep.follow hfollow, hlast, bind, Except.bind,
      pure, Except.pure]
  rw [read?, hresolve]

end TexturePack.Files.Tree
