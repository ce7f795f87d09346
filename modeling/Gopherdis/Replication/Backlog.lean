/-
The replication backlog: a ring of the newest bytes of the command stream, with the global offsets
of its first and last byte. Reading from an offset it still covers gives the stream from that
offset on.
-/
import Gopherdis.Lib.Decimal
import Gopherdis.Lib.RingBuffer

namespace Gopherdis.Replication

open Lib List

/-- The offsets are `int64`s in the source: fewer than 2^63 bytes are ever fed. -/
structure Backlog where
  ring : RingBuffer UInt8
  firstOffset : Nat
  lastOffset : Nat

variable {b : Backlog} {stream : Bytes}

def newBacklog (capacity : Int) : Backlog :=
  let size := if capacity ≤ 0 then 1024 * 1024 else capacity.toNat
  { ring := { size, cells := fun _ => 0, head := 0 }, firstOffset := 0, lastOffset := 0 }

def Backlog.feed (b : Backlog) (data : Bytes) : Backlog :=
  if data.length = 0 then b
  else
    let lastOffset := b.lastOffset + data.length
    { ring := b.ring.putAll data
      lastOffset
      firstOffset :=
        if b.ring.size < lastOffset - b.firstOffset then lastOffset - b.ring.size else b.firstOffset }

def Backlog.canPartialSync (b : Backlog) (offset : Int) : Bool :=
  0 < b.lastOffset && b.firstOffset ≤ offset && offset ≤ b.lastOffset

/-- `(head - bytesToRead) % size` with the sign of the dividend, as in the source. -/
def Backlog.startIdx (b : Backlog) (bytesToRead : Nat) : Nat :=
  let i := ((b.ring.head : Int) - bytesToRead).tmod b.ring.size
  (if i < 0 then i + b.ring.size else i).toNat

/-- No bytes both for an offset out of range (`nil` in the source) and for the last one. -/
def Backlog.readFromOffset (b : Backlog) (offset : Int) : Bytes :=
  if offset < b.firstOffset ∨ b.lastOffset < offset then []
  else
    let bytesToRead := (b.lastOffset - offset).toNat
    b.ring.window (b.startIdx bytesToRead) bytesToRead

/-- The backlog has been fed the bytes of `stream`. -/
structure Backlog.Fed (b : Backlog) (stream : Bytes) : Prop where
  ring : b.ring.Holds stream
  last : b.lastOffset = stream.length
  first : b.firstOffset = stream.length - b.ring.size

lemma newBacklog_fed (capacity : Int) : (newBacklog capacity).Fed [] := by
  refine ⟨RingBuffer.holds_nil ?_ rfl, rfl, (Nat.zero_sub _).symm⟩
  show 0 < if capacity ≤ 0 then 1024 * 1024 else capacity.toNat
  split <;> omega

lemma Backlog.Fed.feed (h : b.Fed stream) (data : Bytes) : (b.feed data).Fed (stream ++ data) := by
  unfold Backlog.feed
  split_ifs with h0
  · rw [length_eq_zero_iff.1 h0, append_nil]; exact h
  have hl := h.last
  have hf := h.first
  refine ⟨h.ring.putAll data, ?_, ?_⟩
  · rw [length_append]; simp only; omega
  · simp only [length_append, RingBuffer.putAll_size]
    split_ifs <;> omega

lemma Backlog.Fed.startIdx_mod (h : b.Fed stream) {n : Nat}
    (hlen : n ≤ stream.length) : b.startIdx n % b.ring.size = (stream.length - n) % b.ring.size := by
  have hpos := h.ring.pos
  have hhead := h.ring.head
  have key : ((b.startIdx n : Int) % b.ring.size) = (((b.ring.head : Int) - n) % b.ring.size) := by
    unfold Backlog.startIdx
    have hgt := Int.lt_tmod_of_pos ((b.ring.head : Int) - n) (by omega : (0 : Int) < b.ring.size)
    simp only
    split_ifs with hneg
    · rw [Int.toNat_of_nonneg (by omega), Int.add_emod_right]
      rw [Int.tmod_def, Int.sub_mul_emod_self_left]
    · rw [Int.toNat_of_nonneg (by omega)]
      rw [Int.tmod_def, Int.sub_mul_emod_self_left]
  have hrhs : (((b.ring.head : Int) - n) % b.ring.size) = (((stream.length - n : Nat) : Int) % b.ring.size) := by
    rw [hhead, Nat.cast_sub hlen, Int.natCast_mod, Int.sub_emod, Int.emod_emod_of_dvd _ dvd_rfl, ← Int.sub_emod]
  exact_mod_cast key.trans hrhs

lemma Backlog.Fed.read (h : b.Fed stream) {offset : Int} (hfirst : b.firstOffset ≤ offset)
    (hlast : offset ≤ b.lastOffset) : b.readFromOffset offset = stream.drop offset.toNat := by
  have hl := h.last
  have hf := h.first
  unfold Backlog.readFromOffset
  rw [if_neg (by omega)]
  rw [h.ring.window_eq (by omega) (by omega) (h.startIdx_mod (by omega))]
  congr 1
  omega

/-! ## Any number of feeds -/

/-- `ReadFromOffset` with `nil` told from an empty slice. -/
def Backlog.sliceFromOffset (b : Backlog) (offset : Int) : Option Bytes :=
  if offset < b.firstOffset ∨ b.lastOffset < offset then none else some (b.readFromOffset offset)

lemma Backlog.Fed.feedAll (h : b.Fed stream) (fed : List Bytes) :
    (fed.foldl Backlog.feed b).Fed (stream ++ fed.flatten) := by
  induction fed generalizing b stream with
  | nil => simpa using h
  | cons data fed ih =>
    rw [flatten_cons, ← append_assoc]
    exact ih (h.feed data)

lemma feedAll_size (b : Backlog) (fed : List Bytes) : (fed.foldl Backlog.feed b).ring.size = b.ring.size := by
  induction fed generalizing b with
  | nil => rfl
  | cons data fed ih =>
    rw [foldl_cons, ih, Backlog.feed]
    split_ifs
    · rfl
    · exact b.ring.putAll_size data

/-- The newest bytes are kept, as many as there is room for, and read back from every offset among them. A capacity
of zero or less stands for the one of a mebibyte. -/
theorem backlog_keeps_newest (capacity : Int) (fed : List Bytes) :
    let b := fed.foldl Backlog.feed (newBacklog capacity)
    b.lastOffset = fed.flatten.length ∧
      (b.lastOffset - b.firstOffset : Int) =
        min (fed.flatten.length : Int) (if capacity ≤ 0 then 1024 * 1024 else capacity) ∧
      ∀ offset : Int, b.sliceFromOffset offset =
        if b.firstOffset ≤ offset ∧ offset ≤ b.lastOffset then some (fed.flatten.drop offset.toNat) else none := by
  intro b
  have h : b.Fed fed.flatten := (newBacklog_fed capacity).feedAll fed
  have hsize : b.ring.size = if capacity ≤ 0 then 1024 * 1024 else capacity.toNat := feedAll_size _ fed
  refine ⟨h.last, ?_, fun offset => ?_⟩
  · rw [h.first, h.last, hsize]
    split_ifs <;> omega
  · rw [Backlog.sliceFromOffset]
    split_ifs with hout hin hin
    · omega
    · rfl
    · rw [h.read hin.1 hin.2]
    · omega

end Gopherdis.Replication
