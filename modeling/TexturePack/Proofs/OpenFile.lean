import Mathlib
import TexturePack.Container
import TexturePack.Proofs.Bytes
import TexturePack.Proofs.Stream

/-! Reading a file whose reads neither fail nor end before the file does. In whatever pieces it
delivers, a read gets the bytes from its position on. -/
namespace TexturePack

/-- Pieces are only a way to deliver the bytes. -/
theorem Script.untilEnd?_rows {pitch : Nat} (hp : 0 < pitch) {n : Nat} {bs : Bytes}
    (hn : bs.length ≤ n) :
    Script.untilEnd? ((bs.rows pitch n).map .data) = some bs := by
  induction n generalizing bs with
  | zero =>
    obtain rfl := List.length_eq_zero_iff.mp (Nat.le_zero.mp hn)
    rfl
  | succ n ih =>
    rcases bs with _ | ⟨b, bs⟩
    · rfl
    obtain ⟨pitch, rfl⟩ := Nat.exists_eq_succ_of_ne_zero hp.ne'
    have hrest : ((b :: bs).drop (pitch + 1)).length ≤ n := by
      rw [List.drop_succ_cons, List.length_drop]
      rw [List.length_cons] at hn
      omega
    rw [Bytes.rows_succ_cons, List.map_cons, List.take_succ_cons, untilEnd?, ih hrest,
      Option.map_some, ← List.take_succ_cons, List.take_append_drop]
    simp

namespace OpenFile

/-- Reads do not fail, each brings something until the end, and the file can go to any place. -/
structure Reliable (f : OpenFile) : Prop where
  failsAt : f.failsAt = none
  pieceSize : f.pieceSize ≠ some 0
  seekable : f.seekable = true

theorem reliable_ofBytes (content : Bytes) : (ofBytes content).Reliable :=
  ⟨rfl, nofun, rfl⟩

namespace Reliable

variable {f g : OpenFile} {n : Nat}

theorem moved (hf : f.Reliable) (position : Nat) :
    Reliable { f with position := position } :=
  ⟨hf.failsAt, hf.pieceSize, hf.seekable⟩

theorem available_eq (hf : f.Reliable) : f.available = f.content.drop f.position := by
  rw [available, hf.failsAt, Option.getD_none, List.take_length]

theorem untilEnd?_eq (hf : f.Reliable) :
    f.script.untilEnd? = some (f.content.drop f.position) := by
  have hend : f.endsInFailure = false := by rw [endsInFailure, hf.failsAt]
  rw [← hf.available_eq, script, hend, if_neg Bool.false_ne_true, List.append_nil]
  rcases hbytes : f.available with _ | ⟨b, bs⟩
  · rw [Bytes.rows_nil]
    rfl
  · refine Script.untilEnd?_rows (Nat.pos_of_ne_zero fun hzero => ?_) le_rfl
    rcases hpiece : f.pieceSize with _ | size
    · simp [hpiece] at hzero
    · exact hf.pieceSize (hpiece.trans (congrArg some (by simpa [hpiece] using hzero)))

/-- A read delivers the bytes from the position on, fewer only where the file ends. -/
theorem readFully_eq (hf : f.Reliable) (n : Nat) :
    (f.readFully n).1.bytes = f.content.slice f.position n ∧
      (f.readFully n).1.failed = false ∧
      (f.readFully n).2 =
        { f with position := f.position + (f.content.slice f.position n).length } := by
  obtain ⟨hbytes, hfailed⟩ := Script.readFully_of_untilEnd hf.untilEnd?_eq n
  refine ⟨hbytes, hfailed, ?_⟩
  rw [readFully, hbytes]
  rfl

theorem record_eq (hf : f.Reliable) (n : Nat) :
    (f.readFully n).1.record n =
      if (f.content.slice f.position n).length = n then .ok (f.content.slice f.position n)
      else .refuse (.shortRead n (f.content.slice f.position n).length) := by
  obtain ⟨hbytes, hfailed, -⟩ := hf.readFully_eq n
  rw [Delivery.record, hfailed, hbytes, if_neg Bool.false_ne_true, ite_not]

theorem readRecord_eq_ok (hf : f.Reliable) {bs : Bytes}
    (h : f.readRecord n = .ok (bs, g)) :
    bs = f.content.slice f.position n ∧ bs.length = n ∧
      g = { f with position := f.position + n } := by
  obtain ⟨-, -, hrest⟩ := hf.readFully_eq n
  change ((f.readFully n).1.record n).map (·, (f.readFully n).2) = .ok (bs, g) at h
  rw [hf.record_eq, hrest] at h
  split at h
  next hlen =>
    cases h
    exact ⟨rfl, hlen, by rw [hlen]⟩
  next => cases h

/-- A file at its start can be told by its first bytes, and is at its start again. -/
theorem identify_eq (hf : f.Reliable) (hstart : f.position = 0) (hlen : 4 ≤ f.content.length) :
    f.identify = (⟨.ofMagic (f.content.take 4),
      String.ofList ((f.content.take 4).map Identified.printable)⟩, f) := by
  obtain ⟨hbytes, hfailed, hrest⟩ := hf.readFully_eq 4
  have hmagic : f.content.slice f.position 4 = f.content.take 4 := by
    rw [hstart, Bytes.slice, List.drop_zero]
  have hfour : (f.content.take 4).length = 4 := List.length_take_of_le hlen
  rw [hmagic] at hbytes hrest
  unfold identify
  rcases hread : f.readFully 4 with ⟨d, f'⟩
  simp only [hread] at hbytes hfailed hrest
  have hback : f'.rewind = .ok f := by
    rw [hrest, rewind, seek]
    rcases f with ⟨content, size, position, pieceSize, failsAt, seekable⟩
    cases hstart
    cases hf.seekable
    rfl
  simp only [hbytes, hfailed, hfour, hback]
  rfl

end Reliable

end OpenFile
end TexturePack
