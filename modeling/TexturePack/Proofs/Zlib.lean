import Mathlib
import TexturePack.Zlib
import TexturePack.Proofs.Bytes

/-! What a zlib stream yields. A sound stream yields all that is in it, a damaged one what a reader
has been given before the damage is found, and every byte string has a stream that yields it. -/
namespace TexturePack

namespace Deflate

theorem extract_eq_slice (bs : Bytes) (start len : Nat) :
    bs.toArray.extract start (start + len) = (bs.slice start len).toArray := by
  rw [List.extract_toArray, List.extract_eq_take_drop, Nat.add_sub_cancel_left, Bytes.slice]

/-- A block that holds its bytes as they are. -/
def storedBlock (last : Bool) (chunk : Bytes) : Bytes :=
  UInt8.ofNat last.toNat :: (Bytes.ofNatLE 2 chunk.length ++
    (Bytes.ofNatLE 2 (65535 - chunk.length) ++ chunk))

theorem length_storedBlock (last : Bool) (chunk : Bytes) :
    (storedBlock last chunk).length = 5 + chunk.length := by
  simp [storedBlock]
  omega

variable {front chunk rest : Bytes} {last : Bool}

theorem bitAt?_eq {input : Array UInt8} {place : Nat} {b : UInt8} (hb : input[place]? = some b)
    {k : Nat} (hk : k < 8) : bitAt? input (8 * place + k) = some (b.toNat / 2 ^ k % 2) := by
  have hplace : (8 * place + k) / 8 = place := by omega
  have hbit : (8 * place + k) % 8 = k := by omega
  rw [bitAt?, hplace, hbit, hb, Option.map_some, Nat.shiftRight_eq_div_pow]

/-- The first three bits of a block say whether it is the last, and of which kind it is. -/
theorem bits_storedBlock (last : Bool) {input : Array UInt8} {place : Nat}
    (hb : input[place]? = some (UInt8.ofNat last.toNat)) :
    bits input (8 * place) 1 = .ok last.toNat ∧ bits input (8 * place + 1) 2 = .ok 0 := by
  have h0 := bitAt?_eq hb (show 0 < 8 by decide)
  have h1 := bitAt?_eq hb (show 1 < 8 by decide)
  have h2 := bitAt?_eq hb (show 2 < 8 by decide)
  rw [Nat.add_zero] at h0
  constructor
  · cases last <;> simp [bits, h0, bind, Except.bind, pure, Except.pure]
  · cases last <;> simp [bits, h1, h2, bind, Except.bind, pure, Except.pure]

theorem getElem?_storedBlock {bs : Bytes} (hbs : bs = front ++ (storedBlock last chunk ++ rest)) :
    bs.toArray[front.length]? = some (UInt8.ofNat last.toNat) := by
  simp [hbs, storedBlock]

/-- A stored block is read back. -/
theorem block_storedBlock (hchunk : chunk.length ≤ 65535) {bs : Bytes}
    (hbs : bs = front ++ (storedBlock last chunk ++ rest)) (output : Array UInt8) :
    block .streaming bs.toArray (8 * front.length + 1) output =
      ⟨output ++ chunk.toArray, 8 * (front.length + (storedBlock last chunk).length), none⟩ := by
  have hheader : bs.slice (front.length + 1) 4 =
      Bytes.ofNatLE 2 chunk.length ++ Bytes.ofNatLE 2 (65535 - chunk.length) := by
    refine Bytes.slice_middle (front ++ [UInt8.ofNat last.toNat]) (chunk ++ rest) ?_ (by simp)
      (by simp)
    simp [hbs, storedBlock]
  have hdata : bs.slice (front.length + 5) chunk.length = chunk := by
    refine Bytes.slice_middle (front ++ [UInt8.ofNat last.toNat] ++ Bytes.ofNatLE 2 chunk.length ++
      Bytes.ofNatLE 2 (65535 - chunk.length)) rest ?_ (by simp) rfl
    simp [hbs, storedBlock]
  have hlength : Bytes.word16 (bs.slice (front.length + 1) 4) 0 = chunk.length := by
    rw [hheader, Bytes.word16, Bytes.slice, List.drop_zero,
      List.take_left' (Bytes.length_ofNatLE 2 _), Bytes.toNatLE_ofNatLE (by omega)]
  have hcheck : Bytes.word16 (bs.slice (front.length + 1) 4) 2 = 65535 - chunk.length := by
    rw [hheader, Bytes.word16, Bytes.slice_append_right (by simp), Bytes.length_ofNatLE,
      Nat.sub_self, Bytes.slice, List.drop_zero,
      List.take_of_length_le (Bytes.length_ofNatLE 2 _).le, Bytes.toNatLE_ofNatLE (by omega)]
  have hstart : (8 * front.length + 1 + 2 + 7) / 8 = front.length + 1 := by omega
  have hplenty : ¬(bs.slice (front.length + 1) 4).length < 4 := by
    rw [hheader]
    simp
  unfold block
  rw [(bits_storedBlock last (getElem?_storedBlock hbs)).2]
  simp only [stored, hstart, extract_eq_slice, Dialect.fitting, Dialect.streaming]
  rw [if_neg hplenty, hlength, hcheck, if_neg (by simp), Nat.add_assoc, hdata]
  simp [length_storedBlock]
  omega

/-- Behind a stored block a stream goes on, unless the block is its last. -/
theorem blocks_storedBlock (hchunk : chunk.length ≤ 65535) {bs : Bytes}
    (hbs : bs = front ++ (storedBlock last chunk ++ rest)) (output : Array UInt8) (fuel : Nat) :
    blocks .streaming bs.toArray (8 * front.length) output (fuel + 1) =
      if last = true then
        ⟨output ++ chunk.toArray, 8 * (front.length + (storedBlock last chunk).length), none⟩
      else
        blocks .streaming bs.toArray (8 * (front.length + (storedBlock last chunk).length))
          (output ++ chunk.toArray) fuel := by
  have hthere : available bs.toArray (8 * front.length) Dialect.streaming.headerBits = true := by
    simp [available, Dialect.streaming, hbs, length_storedBlock]
  rw [blocks, hthere, (bits_storedBlock last (getElem?_storedBlock hbs)).1]
  simp only [block_storedBlock hchunk hbs]
  cases last <;> simp

/-- Bytes as they are, in `n` full blocks and one more. -/
def storedBlocks : Nat → Bytes → Bytes
  | 0, content => storedBlock true content
  | n + 1, content => storedBlock false (content.take 65535) ++ storedBlocks n (content.drop 65535)

theorem le_length_storedBlocks (n : Nat) (content : Bytes) :
    5 * (n + 1) ≤ (storedBlocks n content).length := by
  induction n generalizing content with
  | zero =>
    rw [storedBlocks, length_storedBlock]
    omega
  | succ n ih =>
    have hrest := ih (content.drop 65535)
    rw [storedBlocks, List.length_append, length_storedBlock]
    omega

/-- All blocks of a stream are read back, up to the one that is marked as last. -/
theorem blocks_storedBlocks {n : Nat} {bs content : Bytes} {fuel : Nat} (hfuel : n < fuel)
    (hcontent : content.length ≤ 65535 * (n + 1))
    (hbs : bs = front ++ (storedBlocks n content ++ rest)) (output : Array UInt8) :
    blocks .streaming bs.toArray (8 * front.length) output fuel =
      ⟨output ++ content.toArray, 8 * (front.length + (storedBlocks n content).length), none⟩ := by
  induction n generalizing front content output fuel with
  | zero =>
    obtain ⟨fuel, rfl⟩ := Nat.exists_eq_succ_of_ne_zero hfuel.ne'
    rw [blocks_storedBlock (by omega) hbs, if_pos rfl, storedBlocks]
  | succ n ih =>
    obtain ⟨fuel, rfl⟩ := Nat.exists_eq_succ_of_ne_zero (Nat.ne_zero_of_lt hfuel)
    have hfirst : bs = front ++ (storedBlock false (content.take 65535) ++
        (storedBlocks n (content.drop 65535) ++ rest)) := by
      rw [hbs, storedBlocks, List.append_assoc]
    have hmore : bs = (front ++ storedBlock false (content.take 65535)) ++
        (storedBlocks n (content.drop 65535) ++ rest) := by
      rw [hfirst, List.append_assoc]
    have hdrop : (content.drop 65535).length ≤ 65535 * (n + 1) := by
      rw [List.length_drop]
      omega
    have hnext := ih (Nat.lt_of_succ_lt_succ hfuel) hdrop hmore
      (output ++ (content.take 65535).toArray)
    rw [List.length_append] at hnext
    have hjoin :
        (content.take 65535).toArray ++ (content.drop 65535).toArray = content.toArray := by
      rw [List.append_toArray (content.take 65535), List.take_append_drop]
    rw [blocks_storedBlock (List.length_take_le ..) hfirst, if_neg Bool.false_ne_true, hnext,
      storedBlocks, List.length_append, Nat.add_assoc, Array.append_assoc, hjoin]

end Deflate

namespace Checksum

theorem adler32_lt (bs : Bytes) : adler32 bs < 256 ^ 4 := by
  unfold adler32
  generalize hsums : bs.foldl _ (1, 0) = sums
  have hlt : sums.1 < adlerModulus ∧ sums.2 < adlerModulus := by
    rw [← hsums]
    refine List.foldlRecOn bs _
      (motive := fun s : Nat × Nat => s.1 < adlerModulus ∧ s.2 < adlerModulus) (by decide) ?_
    exact fun _ _ _ _ => ⟨Nat.mod_lt _ (by decide), Nat.mod_lt _ (by decide)⟩
  unfold adlerModulus at hlt
  change 65536 * sums.2 + sums.1 < 256 ^ 4
  omega

end Checksum

namespace Zlib

open Deflate

/-- How many bytes a streaming reader hands over before the stream ends, breaks off, or turns out to
be damaged. -/
def reach (stream : Bytes) : Nat :=
  let r := inflate .streaming true stream
  if r.stop = some .corrupt then handedOver (inflate .streaming true) stream r.output.size
  else r.output.size

/-- The bytes that a stream yields. -/
def yielded (stream : Bytes) : Bytes :=
  (inflate .streaming true stream).output.toList.take (reach stream)

theorem length_yielded (stream : Bytes) :
    (yielded stream).length = min (reach stream) (inflate .streaming true stream).output.size := by
  rw [yielded, List.length_take, Array.length_toList]

/-- A sound stream yields all that is in it. -/
theorem yielded_of_sound {stream : Bytes} (h : (inflate .streaming true stream).stop = none) :
    yielded stream = (inflate .streaming true stream).output.toList := by
  rw [yielded, reach]
  simp [h]

/-- A reader gets something if it does not ask for more than the stream hands over, or if the stream
ends as it should. -/
theorem deliver?_eq (stream : Bytes) (wanted : Nat) :
    deliver? stream wanted =
      if wanted ≤ reach stream ∨ (inflate .streaming true stream).stop = none ∨
          (inflate .streaming true stream).stop = some .full then
        some ((inflate .streaming true stream).output.toList.take wanted)
      else none := by
  rcases hstop : (inflate .streaming true stream).stop with _ | _ | _ | _ <;>
    simp [deliver?, reach, hstop]

/-- A sound stream delivers what is wanted of it, or all that there is. -/
theorem deliver?_of_sound {stream : Bytes} (h : (inflate .streaming true stream).stop = none)
    (wanted : Nat) : deliver? stream wanted =
      some ((inflate .streaming true stream).output.toList.take wanted) := by
  rw [deliver?_eq, if_pos (.inr (.inl h))]

/-- A reader that gets what it wants gets the first bytes of what the stream yields. -/
theorem deliver?_of_enough {stream : Bytes} {wanted : Nat} (h : wanted ≤ (yielded stream).length) :
    deliver? stream wanted = some ((yielded stream).take wanted) := by
  rw [length_yielded, Nat.le_min] at h
  rw [deliver?_eq, if_pos (.inl h.1), yielded, List.take_take, Nat.min_eq_left h.1]

/-- A stream that yields less than is wanted delivers less, or nothing. -/
theorem length_lt_of_deliver? {stream found : Bytes} {wanted : Nat}
    (h : (yielded stream).length < wanted) (hd : deliver? stream wanted = some found) :
    found.length < wanted := by
  rw [length_yielded] at h
  rw [deliver?_eq] at hd
  split at hd
  case isFalse => cases hd
  case isTrue hgiven =>
    cases hd
    rw [List.length_take, Array.length_toList]
    rcases hgiven with hreach | hstop
    · omega
    · have hall : reach stream = (inflate .streaming true stream).output.size := by
        unfold reach
        rcases hstop with hstop | hstop <;> simp [hstop]
      omega

/-- A stream whose header is in order and whose checksum is right is sound. -/
theorem inflate_of_checksum {method flags : UInt8} {rest trailer : Bytes} {output : Array UInt8}
    {position : Nat} (hheader : headerOk method flags = true)
    (hdeflated : Deflate.inflate .streaming (method :: flags :: rest).toArray 2 =
      ⟨output, position, none⟩)
    (htrailer : Bytes.slice (method :: flags :: rest) ((position + 7) / 8) 4 = trailer)
    (hlength : trailer.length = 4) (hsum : trailer.toNatBE = Checksum.adler32 output.toList) :
    inflate .streaming true (method :: flags :: rest) =
      ⟨output, 8 * ((position + 7) / 8 + 4), none⟩ := by
  simp only [inflate, hheader, hdeflated, extract_eq_slice, htrailer, hlength, hsum]
  simp

/-- A stream that holds its bytes as they are. -/
def store (content : Bytes) : Bytes :=
  0x78 :: 0x01 :: (storedBlocks (content.length / 65535) content ++
    (Bytes.ofNatLE 4 (Checksum.adler32 content)).reverse)

/-- What has been stored comes out again, and the stream is sound. -/
theorem inflate_store (content : Bytes) :
    (inflate .streaming true (store content)).output = content.toArray ∧
      (inflate .streaming true (store content)).stop = none := by
  have hcontent : content.length ≤ 65535 * (content.length / 65535 + 1) :=
    (Nat.lt_mul_div_succ _ (by decide)).le
  have hfuel : content.length / 65535 < 8 * (store content).toArray.size + 1 := by
    have hblocks := le_length_storedBlocks (content.length / 65535) content
    rw [List.size_toArray, store, List.length_cons, List.length_cons, List.length_append]
    omega
  have hstream : store content = [0x78, 0x01] ++ (storedBlocks (content.length / 65535) content ++
      (Bytes.ofNatLE 4 (Checksum.adler32 content)).reverse) := rfl
  have hdeflated : Deflate.inflate .streaming (store content).toArray 2 =
      ⟨#[] ++ content.toArray, 8 * (2 + (storedBlocks (content.length / 65535) content).length),
        none⟩ := blocks_storedBlocks hfuel hcontent hstream #[]
  have htrailer : (store content).slice
      ((8 * (2 + (storedBlocks (content.length / 65535) content).length) + 7) / 8) 4 =
        (Bytes.ofNatLE 4 (Checksum.adler32 content)).reverse := by
    refine Bytes.slice_middle (0x78 :: 0x01 :: storedBlocks (content.length / 65535) content) [] ?_
      ?_ (by simp)
    · rw [store, List.append_nil, List.cons_append, List.cons_append]
    · rw [List.length_cons, List.length_cons]
      omega
  have hsum : Bytes.toNatBE (Bytes.ofNatLE 4 (Checksum.adler32 content)).reverse =
      Checksum.adler32 (#[] ++ content.toArray).toList := by
    rw [Bytes.toNatBE, List.reverse_reverse, Bytes.toNatLE_ofNatLE (Checksum.adler32_lt content),
      Array.empty_append]
  have hinflate := inflate_of_checksum (by decide) hdeflated htrailer (by simp) hsum
  rw [← store] at hinflate
  rw [hinflate]
  exact ⟨Array.empty_append, rfl⟩

end Zlib
end TexturePack
