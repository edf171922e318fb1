import Mathlib
import TexturePack.OpenFile

/-! A source delivers bytes until it ends or fails. What a reader makes of it depends on these
bytes and on that end alone, and not on the pieces in which they arrive or on interruptions. -/
namespace TexturePack

namespace ReadEvent

/-- Whether reading goes on behind the event. -/
def goesOn : ReadEvent → Bool
  | data bytes => !bytes.isEmpty
  | interrupted => true
  | failed => false

def bytes : ReadEvent → Bytes
  | data bytes => bytes
  | _ => []

end ReadEvent

namespace Script

variable {script script' : Script} {n : Nat}

/-- Everything that comes before the source ends or fails. -/
def delivered (script : Script) : Bytes :=
  (script.takeWhile ReadEvent.goesOn).flatMap ReadEvent.bytes

/-- Whether the source fails before it ends. -/
def breaksOff (script : Script) : Bool :=
  (script.dropWhile ReadEvent.goesOn).head? = some .failed

@[simp] theorem delivered_nil : delivered [] = [] := rfl

@[simp] theorem breaksOff_nil : breaksOff [] = false := rfl

@[simp] theorem delivered_interrupted (script : Script) :
    delivered (.interrupted :: script) = script.delivered := rfl

@[simp] theorem breaksOff_interrupted (script : Script) :
    breaksOff (.interrupted :: script) = script.breaksOff := rfl

@[simp] theorem delivered_failed (script : Script) : delivered (.failed :: script) = [] := rfl

@[simp] theorem breaksOff_failed (script : Script) : breaksOff (.failed :: script) = true := rfl

@[simp] theorem delivered_data_nil (script : Script) : delivered (.data [] :: script) = [] := rfl

@[simp] theorem breaksOff_data_nil (script : Script) :
    breaksOff (.data [] :: script) = false := rfl

theorem delivered_data {bytes : Bytes} (h : bytes ≠ []) (script : Script) :
    delivered (.data bytes :: script) = bytes ++ script.delivered := by
  obtain ⟨b, bs, rfl⟩ := List.exists_cons_of_ne_nil h
  rfl

theorem breaksOff_data {bytes : Bytes} (h : bytes ≠ []) (script : Script) :
    breaksOff (.data bytes :: script) = script.breaksOff := by
  obtain ⟨b, bs, rfl⟩ := List.exists_cons_of_ne_nil h
  rfl

/-- What a request for `n` bytes gets from a source. Behind a request that has been filled the
source goes on with the bytes that are left. -/
structure Serves (script : Script) (n : Nat) (d : Delivery) : Prop where
  bytes : d.bytes = script.delivered.take n
  failed : d.failed = true ↔ script.delivered.length < n ∧ script.breaksOff = true
  rest : n ≤ script.delivered.length →
    d.rest.delivered = script.delivered.drop n ∧ d.rest.breaksOff = script.breaksOff

theorem serves_readFully (script : Script) (n : Nat) : script.Serves n (script.readFully n) := by
  fun_induction readFully script n with
  | case1 script => exact ⟨rfl, by simp, fun _ => ⟨rfl, rfl⟩⟩
  | case2 n hn => exact ⟨by simp, by simp, by simp⟩
  | case3 n script hn ih => exact ⟨ih.bytes, ih.failed, ih.rest⟩
  | case4 script n hn =>
    exact ⟨by simp, by simpa using Nat.pos_of_ne_zero hn, fun h => absurd (Nat.le_zero.mp h) hn⟩
  | case5 script n hn => exact ⟨by simp, by simp, fun h => absurd (Nat.le_zero.mp h) hn⟩
  | case6 bytes script n hn hbytes hlt =>
    have hleft : bytes.drop n ≠ [] := by rwa [Ne, List.drop_eq_nil_iff, Nat.not_le]
    refine ⟨?_, ?_, fun _ => ⟨?_, ?_⟩⟩
    · rw [delivered_data hbytes, List.take_append_of_le_length hlt.le]
    · rw [delivered_data hbytes, List.length_append]
      simp only [Bool.false_eq_true, false_iff, not_and_or]
      omega
    · rw [delivered_data hleft, delivered_data hbytes, List.drop_append_of_le_length hlt.le]
    · rw [breaksOff_data hleft, breaksOff_data hbytes]
  | case7 bytes script n hn hbytes hge tail ih =>
    have hle : bytes.length ≤ n := Nat.le_of_not_lt hge
    refine ⟨?_, ?_, fun hn' => ?_⟩
    · rw [delivered_data hbytes, List.take_append, List.take_of_length_le hle, ih.bytes]
    · rw [delivered_data hbytes, breaksOff_data hbytes, List.length_append, ih.failed,
        Nat.lt_sub_iff_add_lt']
    · rw [delivered_data hbytes, List.length_append] at hn'
      obtain ⟨hrest, hbreaks⟩ := ih.rest (by omega)
      rw [delivered_data hbytes, breaksOff_data hbytes, List.drop_append,
        List.drop_eq_nil_of_le hle]
      exact ⟨hrest, hbreaks⟩

theorem untilEnd?_eq (script : Script) :
    script.untilEnd? = if script.breaksOff then none else some script.delivered := by
  fun_induction untilEnd? script with
  | case1 => rfl
  | case2 script ih => exact ih
  | case3 script => rfl
  | case4 script => rfl
  | case5 bytes script hbytes ih =>
    rw [delivered_data hbytes, breaksOff_data hbytes, ih]
    cases breaksOff script <;> rfl

/-- A reader that asks for some bytes of a source gets the first ones of all that there
are. -/
theorem readFully_of_untilEnd {all : Bytes} (h : script.untilEnd? = some all) (n : Nat) :
    (script.readFully n).bytes = all.take n ∧ (script.readFully n).failed = false := by
  obtain ⟨hbytes, hfailed, -⟩ := script.serves_readFully n
  rw [untilEnd?_eq] at h
  split at h
  · cases h
  next hbreak =>
    cases h
    exact ⟨hbytes, Bool.eq_false_iff.mpr fun hfail => hbreak (hfailed.mp hfail).2⟩

theorem readAll_eq (script : Script) (declared : Nat) : script.readAll declared =
    if script.breaksOff then .refuse .io else .ok script.delivered := by
  rw [readAll, collect, untilEnd?_eq]
  cases script.breaksOff <;> rfl

theorem readRecord_eq (script : Script) (size : Nat) : script.readRecord size =
    if size ≤ script.delivered.length then .ok (script.delivered.take size)
    else if script.breaksOff then .refuse .io
    else .refuse (.shortRead size script.delivered.length) := by
  obtain ⟨hbytes, hfailed, -⟩ := script.serves_readFully size
  simp only [readRecord, Delivery.record, hbytes, List.length_take, hfailed]
  by_cases hle : size ≤ script.delivered.length
  · rw [if_neg (by omega), if_neg (by omega), if_pos hle]
  have hlt : script.delivered.length < size := Nat.lt_of_not_le hle
  rw [if_neg hle, min_eq_right hlt.le]
  cases script.breaksOff
  · rw [if_neg (by simp), if_pos hlt.ne, if_neg Bool.false_ne_true]
  · rw [if_pos ⟨hlt, rfl⟩, if_pos rfl]

theorem readRecord_eq_ok_iff {size : Nat} {record : Bytes} : script.readRecord size = .ok record ↔
    size ≤ script.delivered.length ∧ record = script.delivered.take size := by
  rw [readRecord_eq]
  split_ifs with hle
  · simp [hle, eq_comm]
  · simp [Decode.refuse, hle]
  · simp [Decode.refuse, hle]

theorem readRecord_eq_short_iff {size expected got : Nat} :
    script.readRecord size = .refuse (.shortRead expected got) ↔
      script.delivered.length < size ∧ script.breaksOff = false ∧
        expected = size ∧ got = script.delivered.length := by
  rw [readRecord_eq]
  split_ifs with hle hbreak
  · simp [Decode.refuse, hle]
  · simp [Decode.refuse, hbreak]
  · simp [Decode.refuse, Nat.lt_of_not_le hle, hbreak, eq_comm]

theorem readRecord_eq_io_iff {size : Nat} : script.readRecord size = .refuse .io ↔
    script.delivered.length < size ∧ script.breaksOff = true := by
  rw [readRecord_eq]
  split_ifs with hle hbreak
  · simp [Decode.refuse, hle]
  · simp [hbreak, Nat.lt_of_not_le hle]
  · simp [Decode.refuse, hbreak]

/-- Two sources of the same bytes that end in the same way. -/
structure Alike (script script' : Script) : Prop where
  delivered : script.delivered = script'.delivered
  breaksOff : script.breaksOff = script'.breaksOff

/-- A piece comes in two, or a read is interrupted. -/
inductive Recut : Script → Script → Prop
  | split (front : Script) {a b : Bytes} (rest : Script) : a ≠ [] → b ≠ [] →
      Recut (front ++ .data (a ++ b) :: rest) (front ++ .data a :: .data b :: rest)
  | interrupt (front rest : Script) : Recut (front ++ rest) (front ++ .interrupted :: rest)

theorem Alike.append_left {rest rest' : Script} (h : Alike rest rest') (front : Script) :
    Alike (front ++ rest) (front ++ rest') := by
  induction front with
  | nil => exact h
  | cons event front ih =>
    obtain ⟨hdelivered, hbreaks⟩ := ih
    rcases event with bytes | _ | _
    · rcases eq_or_ne bytes [] with rfl | hbytes
      · exact ⟨rfl, rfl⟩
      · rw [List.cons_append, List.cons_append]
        exact ⟨by rw [delivered_data hbytes, delivered_data hbytes, hdelivered],
          by rw [breaksOff_data hbytes, breaksOff_data hbytes, hbreaks]⟩
    · exact ⟨hdelivered, hbreaks⟩
    · exact ⟨rfl, rfl⟩

theorem Recut.alike (h : Recut script script') : Alike script script' := by
  cases h with
  | split front rest ha hb =>
    refine Alike.append_left ⟨?_, ?_⟩ front
    · rw [delivered_data (List.append_ne_nil_of_left_ne_nil ha _), delivered_data ha,
        delivered_data hb, List.append_assoc]
    · rw [breaksOff_data (List.append_ne_nil_of_left_ne_nil ha _), breaksOff_data ha,
        breaksOff_data hb]
  | interrupt front rest =>
    exact Alike.append_left ⟨(delivered_interrupted rest).symm, (breaksOff_interrupted rest).symm⟩
      front

theorem alike_of_recut (h : Relation.EqvGen Recut script script') : Alike script script' := by
  induction h with
  | rel _ _ h => exact h.alike
  | refl _ => exact ⟨rfl, rfl⟩
  | symm _ _ _ ih => exact ⟨ih.delivered.symm, ih.breaksOff.symm⟩
  | trans _ _ _ _ _ ih ih' =>
    exact ⟨ih.delivered.trans ih'.delivered, ih.breaksOff.trans ih'.breaksOff⟩

/-- Reading fills as much of a buffer as the source has bytes for, leaves the rest of it alone, and
fails if and only if the source breaks off before the buffer is full. A record is short if and only
if the source ends before it. Neither the pieces of the source nor its interruptions nor the size
that is declared for it matter to any reader, also when it goes on behind a record. -/
theorem reads_alike (script : Script) :
    (∀ buffer : Bytes,
      let d := script.readFully buffer.length
      d.bytes.length = min buffer.length script.delivered.length ∧
        d.fill buffer =
          script.delivered.take d.bytes.length ++ buffer.drop d.bytes.length ∧
        (d.failed = true ↔
          script.delivered.length < buffer.length ∧ script.breaksOff = true)) ∧
      (∀ size,
        (∀ record, script.readRecord size = .ok record ↔
          size ≤ script.delivered.length ∧ record = script.delivered.take size) ∧
        (∀ expected got, script.readRecord size = .refuse (.shortRead expected got) ↔
          script.delivered.length < size ∧ script.breaksOff = false ∧
            expected = size ∧ got = script.delivered.length) ∧
        (script.readRecord size = .refuse .io ↔
          script.delivered.length < size ∧ script.breaksOff = true)) ∧
      (∀ declared, script.readAll declared =
        if script.breaksOff then .refuse .io else .ok script.delivered) ∧
      (∀ other, Relation.EqvGen Recut script other → script.Alike other) ∧
      ∀ other, script.Alike other →
        (∀ size, other.readRecord size = script.readRecord size) ∧
          (∀ declared declared', other.readAll declared = script.readAll declared') ∧
          ∀ n ≤ script.delivered.length,
            (script.readFully n).rest.Alike (other.readFully n).rest := by
  refine ⟨fun buffer => ?_, fun size => ?_, script.readAll_eq, fun _ => alike_of_recut,
    fun other h => ⟨fun size => ?_, fun declared declared' => ?_, fun n hn => ?_⟩⟩
  · obtain ⟨hbytes, hfailed, -⟩ := script.serves_readFully buffer.length
    refine ⟨by rw [hbytes, List.length_take], ?_, hfailed⟩
    rw [Delivery.fill, hbytes, List.length_take, ← List.take_take, List.take_length]
  · exact ⟨fun _ => readRecord_eq_ok_iff, fun _ _ => readRecord_eq_short_iff,
      readRecord_eq_io_iff⟩
  · rw [readRecord_eq, readRecord_eq, h.delivered, h.breaksOff]
  · rw [readAll_eq, readAll_eq, h.delivered, h.breaksOff]
  · obtain ⟨hrest, hbreaks⟩ := (script.serves_readFully n).rest hn
    obtain ⟨hrest', hbreaks'⟩ := (other.serves_readFully n).rest (h.delivered ▸ hn)
    exact ⟨by rw [hrest, hrest', h.delivered], by rw [hbreaks, hbreaks', h.breaksOff]⟩

/-- Three bytes in one piece or with an interruption between two, and then a failure. -/
theorem reads_alike_interrupted :
    let whole : Script := [.data [1, 2, 3], .failed]
    let cut : Script := [.data [1], .interrupted, .data [2, 3], .failed]
    whole.Alike cut ∧
      Relation.EqvGen Recut [.data [1, 2]] [.data [1], .data [2]] ∧
      Alike [.data [1, 2]] [.data [1], .data [2]] ∧
      cut.readRecord 4 = whole.readRecord 4 ∧ whole.readRecord 4 = .refuse .io ∧
      cut.readAll 9 = whole.readAll 0 ∧
      2 ≤ whole.delivered.length ∧ (whole.readFully 2).rest.Alike (cut.readFully 2).rest := by
  intro whole cut
  have halike : whole.Alike cut := ⟨by decide, by decide⟩
  have hrecut : Relation.EqvGen Recut [.data [1, 2]] [.data [1], .data [2]] :=
    .rel _ _ (.split [] [] (List.cons_ne_nil 1 []) (List.cons_ne_nil 2 []))
  have hlen : 2 ≤ whole.delivered.length := by decide
  obtain ⟨-, hrecords, -, -, hsame⟩ := reads_alike whole
  obtain ⟨hrecord, hall, hrest⟩ := hsame cut halike
  obtain ⟨-, -, -, hcut, -⟩ := reads_alike [.data [1, 2]]
  exact ⟨halike, hrecut, hcut _ hrecut, hrecord 4, (hrecords 4).2.2.mpr ⟨by decide, by decide⟩,
    hall 9 0, hlen, hrest 2 hlen⟩

end Script

theorem Delivery.record_eq_ok {d : Delivery} {n : Nat} {bs : Bytes} (h : d.record n = .ok bs) :
    d.bytes = bs ∧ bs.length = n := by
  unfold record at h
  split at h
  · cases h
  split at h
  · cases h
  next hlen =>
    cases h
    exact ⟨rfl, not_not.mp hlen⟩

namespace OpenFile

theorem readRecord_eq_ok {f g : OpenFile} {n : Nat} {bs : Bytes}
    (h : f.readRecord n = .ok (bs, g)) : (f.script.readFully n).bytes = bs ∧ bs.length = n := by
  unfold readRecord readFully at h
  rcases hr : (f.script.readFully n).record n with e | record
  · simp only [hr, Except.map] at h
    cases h
  · simp only [hr, Except.map] at h
    cases h
    exact Delivery.record_eq_ok hr

theorem readAll_eq_ok {f : OpenFile} {n : Nat} {bs : Bytes} (h : f.readAll n = .ok bs) :
    f.script.untilEnd? = some bs := by
  unfold readAll Script.readAll Script.collect at h
  rcases hu : f.script.untilEnd? with _ | all
  · rw [hu] at h
    cases h
  · rw [hu] at h
    cases h
    rfl

end OpenFile
end TexturePack
