/-
The double buffer in front of the append-only file. A flush swaps the two buffers and empties the active one
before it writes to the file, so what was buffered is gone if that write fails, although every `Write` it came from
had returned no error. That is the only way in which accepted bytes are lost.
-/
import Gopherdis.Lib.Decimal
import Gopherdis.Lib.Runs

namespace Gopherdis.Aof

open Lib List

/-! ## The file -/

/-- The contents of a file, and how often it was written to so far. -/
structure LogFile where
  contents : Bytes
  writes : Nat

/-- A write, whether without an error; one that fails leaves nothing. -/
def LogFile.write (fails : Nat → Bool) (f : LogFile) (data : Bytes) : LogFile × Bool :=
  if fails f.writes then (⟨f.contents, f.writes + 1⟩, false) else (⟨f.contents ++ data, f.writes + 1⟩, true)

/-! ## The buffer -/

/-- Both buffers have the size they were made with. -/
structure DoubleBuffer where
  maxSize : Nat
  active : Bytes
  flushing : Bytes
  activeLen : Nat
  file : Option LogFile
  active_length : active.length = maxSize
  flushing_length : flushing.length = maxSize
  activeLen_le : activeLen ≤ maxSize

def defaultBufferSize : Nat := 4 * 1024 * 1024

def newDoubleBuffer (file : Option LogFile) (bufSize : Int) : DoubleBuffer :=
  let size := if bufSize ≤ 0 then defaultBufferSize else bufSize.toNat
  ⟨size, List.replicate size 0, List.replicate size 0, 0, file, length_replicate, length_replicate, Nat.zero_le _⟩

namespace DoubleBuffer

variable (fails : Nat → Bool)

variable (db : DoubleBuffer)

def pending : Bytes := db.active.take db.activeLen

variable (data : Bytes)

def writeFile : DoubleBuffer × Bool :=
  match db.file with
  | none => (db, true)
  | some f => ({ db with file := some (f.write fails data).1 }, (f.write fails data).2)

/-- The buffers trade places, and the new active one is empty. -/
def swap : DoubleBuffer :=
  ⟨db.maxSize, db.flushing, db.active, 0, db.file, db.flushing_length, db.active_length, Nat.zero_le _⟩

def flushLocked : DoubleBuffer × Bool :=
  if db.activeLen = 0 then (db, true) else db.swap.writeFile fails db.pending

def append (h : db.activeLen + data.length ≤ db.maxSize) : DoubleBuffer where
  maxSize := db.maxSize
  active := db.active.take db.activeLen ++ data ++ db.active.drop (db.activeLen + data.length)
  flushing := db.flushing
  activeLen := db.activeLen + data.length
  file := db.file
  active_length := by
    have := db.active_length
    have := db.activeLen_le
    simp only [length_append, length_take, length_drop]
    omega
  flushing_length := db.flushing_length
  activeLen_le := h

/-- The end of `Write`, where the data fits a buffer that has just been flushed if it had to be. -/
def appendIfFits : DoubleBuffer :=
  if h : db.activeLen + data.length ≤ db.maxSize then db.append data h else db

/-- What is done after a flush, if that did not fail. -/
def flushThen (rest : DoubleBuffer → DoubleBuffer × Bool) : DoubleBuffer × Bool :=
  match db.flushLocked fails with
  | (db, false) => (db, false)
  | (db, true) => rest db

/-- `Write`, whether without an error. -/
def write (db : DoubleBuffer) (data : Bytes) : DoubleBuffer × Bool :=
  if data.length = 0 then (db, true)
  else if db.maxSize < data.length then db.flushThen fails fun db => db.writeFile fails data
  else if db.maxSize < db.activeLen + data.length then db.flushThen fails fun db => (db.appendIfFits data, true)
  else (db.appendIfFits data, true)

end DoubleBuffer

/-! ## Calls -/

/-- The flusher and `Close` call `Flush` as well. -/
inductive BufferCall
  | write (data : Bytes)
  | flush

/-- The buffer, and the data of the writes that returned no error. -/
structure Accepted where
  db : DoubleBuffer
  accepted : Bytes

variable (fails : Nat → Bool)

def bufferStep (s : Accepted) : BufferCall → Option Accepted
  | .write data =>
    let r := s.db.write fails data
    some ⟨r.1, if r.2 then s.accepted ++ data else s.accepted⟩
  | .flush => some ⟨(s.db.flushLocked fails).1, s.accepted⟩

def Accepted.start (contents : Bytes) (bufSize : Int) : Accepted :=
  ⟨newDoubleBuffer (some ⟨contents, 0⟩) bufSize, []⟩

/-- The file and then the buffer hold, after what was in the file before, what was accepted. -/
def Accepted.Intact (contents : Bytes) (s : Accepted) : Prop :=
  ∃ f, s.db.file = some f ∧ f.contents ++ s.db.pending = contents ++ s.accepted

/-- The call flushes a buffer that is not empty. -/
def BufferCall.flushes (db : DoubleBuffer) : BufferCall → Bool
  | write data => db.activeLen ≠ 0 && data.length ≠ 0 && db.maxSize < db.activeLen + data.length
  | flush => db.activeLen ≠ 0

/-- If the call flushes, the write to the file that this takes does not fail. -/
def FlushSucceeds (s : Accepted) (call : BufferCall) : Prop :=
  call.flushes s.db = true → (s.db.file.any fun f => fails f.writes) = false

instance (fails : Nat → Bool) (s : Accepted) (call : BufferCall) : Decidable (FlushSucceeds fails s call) :=
  inferInstanceAs (Decidable (_ → _))

/-! ## What the calls leave -/

namespace DoubleBuffer

variable {fails : Nat → Bool} {db : DoubleBuffer} {f : LogFile} {data : Bytes}

lemma pending_eq_nil : db.pending = [] ↔ db.activeLen = 0 := by
  have := db.active_length
  have := db.activeLen_le
  rw [pending, ← length_eq_zero_iff, length_take]
  omega

lemma pending_append (h : db.activeLen + data.length ≤ db.maxSize) :
    (db.append data h).pending = db.pending ++ data := by
  have hlen : (db.active.take db.activeLen ++ data).length = db.activeLen + data.length := by
    have := db.active_length
    simp only [length_append, length_take]
    omega
  exact take_left' hlen

lemma writeFile_of_file (hf : db.file = some f) (data : Bytes) :
    db.writeFile fails data = ({ db with file := some (f.write fails data).1 }, (f.write fails data).2) := by
  rw [writeFile, hf]

/-- What a flush comes to: nothing is buffered afterwards, and what was is in the file unless the write failed. -/
structure Flushed (fails : Nat → Bool) (db : DoubleBuffer) (f : LogFile) (r : DoubleBuffer × Bool) (f' : LogFile) :
    Prop where
  file : r.1.file = some f'
  size : r.1.maxSize = db.maxSize
  empty : r.1.activeLen = 0
  contents : f'.contents = if r.2 then f.contents ++ db.pending else f.contents
  ok : r.2 = false ↔ db.activeLen ≠ 0 ∧ fails f.writes = true

lemma flushed (hf : db.file = some f) : ∃ f', Flushed fails db f (db.flushLocked fails) f' := by
  unfold flushLocked
  split_ifs with h
  · refine ⟨f, hf, rfl, h, ?_, by simp [h]⟩
    rw [pending_eq_nil.2 h, append_nil]
    rfl
  rw [writeFile_of_file (show db.swap.file = some f from hf)]
  unfold LogFile.write
  cases hfails : fails f.writes with
  | true => exact ⟨⟨f.contents, f.writes + 1⟩, rfl, rfl, rfl, rfl, by simp [h, hfails]⟩
  | false => exact ⟨⟨f.contents ++ db.pending, f.writes + 1⟩, rfl, rfl, rfl, rfl, by simp [hfails]⟩

end DoubleBuffer

namespace Accepted

variable {fails : Nat → Bool} {contents : Bytes} {s s' : Accepted} {call : BufferCall} {data : Bytes}

open DoubleBuffer

lemma intact_flushed {f f' : LogFile} {r : DoubleBuffer × Bool}
    (hi : f.contents ++ s.db.pending = contents ++ s.accepted) (hr : Flushed fails s.db f r f') :
    Intact contents ⟨r.1, s.accepted⟩ ↔ r.2 = true := by
  have hpending : r.1.pending = [] := pending_eq_nil.2 hr.empty
  constructor
  · rintro ⟨g, hg, hsame⟩
    obtain rfl := Option.some.inj (hr.file.symm.trans hg)
    rw [hpending, append_nil] at hsame
    by_contra hfalse
    rw [Bool.not_eq_true] at hfalse
    rw [hr.contents, if_neg (by simp [hfalse]), ← hi] at hsame
    exact (hr.ok.1 hfalse).1 (pending_eq_nil.1 (self_eq_append_right.1 hsame))
  · intro htrue
    refine ⟨f', hr.file, ?_⟩
    rw [hpending, append_nil, hr.contents, if_pos htrue]
    exact hi

lemma intact_write_direct {f : LogFile} (hf : s.db.file = some f) (hempty : s.db.activeLen = 0)
    (hi : f.contents = contents ++ s.accepted) : Intact contents ⟨(s.db.writeFile fails data).1,
      if (s.db.writeFile fails data).2 then s.accepted ++ data else s.accepted⟩ := by
  have hpending : s.db.pending = [] := pending_eq_nil.2 hempty
  rw [writeFile_of_file hf]
  refine ⟨_, rfl, ?_⟩
  show (f.write fails data).1.contents ++ s.db.pending =
    contents ++ if (f.write fails data).2 then s.accepted ++ data else s.accepted
  rw [hpending, append_nil, LogFile.write]
  cases fails f.writes with
  | true => exact hi
  | false => exact (congrArg (· ++ data) hi).trans (append_assoc ..)

lemma intact_append (hi : Intact contents s) (h : s.db.activeLen + data.length ≤ s.db.maxSize) :
    Intact contents ⟨s.db.appendIfFits data, s.accepted ++ data⟩ := by
  obtain ⟨f, hf, hi⟩ := hi
  rw [appendIfFits, dif_pos h]
  refine ⟨f, hf, ?_⟩
  rw [pending_append, ← append_assoc, hi, append_assoc]

lemma intact_flushThen_iff {f f' : LogFile} {rest : DoubleBuffer → DoubleBuffer × Bool}
    (hi : f.contents ++ s.db.pending = contents ++ s.accepted) (hr : Flushed fails s.db f (s.db.flushLocked fails) f')
    (hrest : ∀ db, db.file = some f' → db.maxSize = s.db.maxSize → db.activeLen = 0 →
      f'.contents = contents ++ s.accepted →
      Intact contents ⟨(rest db).1, if (rest db).2 then s.accepted ++ data else s.accepted⟩) :
    Intact contents ⟨(s.db.flushThen fails rest).1,
        if (s.db.flushThen fails rest).2 then s.accepted ++ data else s.accepted⟩ ↔
      ¬ (s.db.activeLen ≠ 0 ∧ fails f.writes = true) := by
  have hflush := intact_flushed hi hr
  rw [← hr.ok, flushThen]
  generalize s.db.flushLocked fails = r at hr hflush ⊢
  obtain ⟨db, ok⟩ := r
  cases ok with
  | false => exact iff_of_false (fun h => Bool.noConfusion (hflush.1 h)) (fun h => h rfl)
  | true =>
    have hcontents : f'.contents = contents ++ s.accepted := by rw [hr.contents, if_pos rfl, hi]
    exact iff_of_true (hrest db hr.file hr.size hr.empty hcontents) Bool.noConfusion

lemma intact_step_iff (hi : Intact contents s) (hstep : bufferStep fails s call = some s') :
    Intact contents s' ↔ FlushSucceeds fails s call := by
  obtain ⟨f, hf, hsame⟩ := id hi
  obtain ⟨f', hr⟩ : ∃ f', Flushed fails _ _ _ f' := flushed hf
  have hguard : FlushSucceeds fails s call ↔ (call.flushes s.db = true → fails f.writes = false) := by
    rw [FlushSucceeds, hf, Option.any_some]
  rw [hguard]
  cases call with
  | flush =>
    cases hstep
    rw [intact_flushed hsame hr, ← Bool.not_eq_false, hr.ok]
    simp [BufferCall.flushes]
  | write data =>
  cases hstep
  unfold DoubleBuffer.write
  by_cases hnil : data.length = 0
  · have hdata : data = [] := length_eq_zero_iff.1 hnil
    simp only [hdata, length_nil, if_true, append_nil, BufferCall.flushes]
    simpa using hi
  -- Both writes that flush are refused with the flush.
  have hflushes : s.db.maxSize < s.db.activeLen + data.length →
      ((BufferCall.flushes s.db (.write data) = true → fails f.writes = false) ↔
        ¬ (s.db.activeLen ≠ 0 ∧ fails f.writes = true)) := by
    intro hlong
    simp [BufferCall.flushes, hnil, hlong]
  rw [if_neg hnil]
  by_cases hlarge : s.db.maxSize < data.length
  · rw [if_pos hlarge, hflushes (by omega)]
    exact intact_flushThen_iff hsame hr fun db hfile _ hempty hcontents =>
      intact_write_direct (s := ⟨db, s.accepted⟩) hfile hempty hcontents
  rw [if_neg hlarge]
  by_cases hlong : s.db.maxSize < s.db.activeLen + data.length
  · rw [if_pos hlong, hflushes hlong]
    refine intact_flushThen_iff hsame hr fun db hfile hsize hempty hcontents => ?_
    have hdb : Intact contents ⟨db, s.accepted⟩ :=
      ⟨f', hfile, by rw [pending_eq_nil.2 hempty, append_nil, hcontents]⟩
    exact intact_append hdb (by show db.activeLen + _ ≤ db.maxSize; omega)
  · rw [if_neg hlong]
    refine iff_of_true (intact_append hi (by omega)) fun h => ?_
    simp [BufferCall.flushes, hlong] at h

end Accepted

/-- Along any calls, with any writes to the file failing, the file and the active buffer hold what was accepted in
every state exactly if no write fails that a flush of buffered data makes. -/
theorem accepted_kept_iff (fails : Nat → Bool) (contents : Bytes) (bufSize : Int) (calls : List BufferCall)
    (s : Accepted) (hrun : Run (bufferStep fails) Free (.start contents bufSize) calls s) :
    (∀ before after t, calls = before ++ after → Run (bufferStep fails) Free (.start contents bufSize) before t →
        t.Intact contents) ↔ Run (bufferStep fails) (FlushSucceeds fails) (.start contents bufSize) calls s :=
  hrun.guarded_iff Accepted.intact_step_iff
    ⟨⟨contents, 0⟩, rfl, by simp [Accepted.start, newDoubleBuffer, DoubleBuffer.pending]⟩

/-- A write larger than the buffer flushes and goes to the file; the next one fails there, and is not accepted. -/
theorem refused_write_loses_nothing : ∃ s : Accepted, s.accepted = ascii "abcdh" ∧ ∀ before after t,
        [.write (ascii "a"), .write (ascii "bcd"), .write (ascii "efg"), .write (ascii "h")] = before ++ after →
        Run (bufferStep fun n => n = 2) Free (.start [] 2) before t → t.Intact [] := by
  have hrun : ∃ s, s.accepted = ascii "abcdh" ∧
      Run (bufferStep fun n => n = 2) (FlushSucceeds fun n => n = 2) (.start [] 2)
        [.write (ascii "a"), .write (ascii "bcd"), .write (ascii "efg"), .write (ascii "h")] s :=
    ⟨_, rfl, .cons (by decide) rfl (.cons (by decide) rfl (.cons (by decide) rfl (.cons (by decide) rfl (.nil _))))⟩
  obtain ⟨s, haccepted, hrun⟩ := hrun
  exact ⟨s, haccepted, (accepted_kept_iff (fun n => n = 2) [] 2 _ s (hrun.mono fun _ _ _ => trivial)).2 hrun⟩

/-- The one write that was accepted is neither in the file nor in the buffer once its flush has failed. -/
theorem failed_flush_drops_accepted :
    ∃ s, Run (bufferStep fun n => n = 0) Free (.start [] 4) [.write (ascii "a"), .flush] s ∧
      s.accepted = ascii "a" ∧ s.db.pending = [] ∧ (s.db.file.map LogFile.contents) = some [] ∧ ¬ s.Intact [] := by
  refine ⟨_, Run.of_runAll rfl, rfl, rfl, rfl, ?_⟩
  rintro ⟨f, hf, hsame⟩
  obtain rfl := Option.some.inj hf
  exact absurd hsame (by decide)

end Gopherdis.Aof
