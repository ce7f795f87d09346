/-
The snapshot decoder with its memory accesses: which buffers it asks for, and the indices and slices
of the decompressor. It reads as the pure decoder does; what can go wrong is only a buffer it asks for
before the bytes to fill it are there.
-/
import Gopherdis.Lib.Checked
import Gopherdis.Rdb.Decode

namespace Gopherdis.Rdb

open Lib Object Store List Checked CReader

/-- The most the allocator of a 64-bit platform gives out at once. -/
def maxAlloc : Nat := 2 ^ 48

/-! ## Decompression -/

/-- `copyChunk(out[op:], src, n)`. -/
def copyChunkM (out : Bytes) (op : Nat) (src : Bytes) (n : Nat) : Checked Bytes := do
  let dst ← slice out op out.length
  let _ ← slice dst 0 n
  let src ← slice src 0 n
  pure (out.take op ++ (src ++ out.drop (op + n)))

/-- The bytewise copy of a back reference that runs into its own output. -/
def copyBytesM (ref op : Nat) : Nat → Bytes → Checked Bytes
  | 0, out => pure out
  | n + 1, out => do
    let b ← index out ref
    let out ← store out op b
    copyBytesM (ref + 1) (op + 1) n out

variable (inp : Bytes)

/-- The low byte of a back reference: the length of the match, its offset and the next position. -/
def refLowM (ip mLen off : Nat) : Checked (Option (Nat × Nat × Nat)) :=
  if inp.length ≤ ip then pure none
  else do
    let low ← index inp ip
    pure (some (mLen + 2, off + low.toNat, ip + 1))

/-- The rest of a back reference after its control byte; a length of seven is continued. -/
def refM (ip ctrl : Nat) : Checked (Option (Nat × Nat × Nat)) :=
  if ctrl / 32 = 7 then
    if inp.length ≤ ip then pure none
    else do
      let more ← index inp ip
      refLowM inp (ip + 1) (ctrl / 32 + more.toNat) (ctrl % 32 * 256 + 1)
  else refLowM inp ip (ctrl / 32) (ctrl % 32 * 256 + 1)

/-- One turn of the loop of `Decompress`, by the positions in its input and its output buffer. -/
def tokenM (expectedLen ip op : Nat) (out : Bytes) : Checked (Option (Nat × Nat × Bytes)) := do
  let ctrl ← index inp ip
  if ctrl.toNat < 32 then
    let litLen := ctrl.toNat + 1
    if inp.length < ip + 1 + litLen ∨ expectedLen < op + litLen then pure none
    else do
      let src ← slice inp (ip + 1) (ip + 1 + litLen)
      let out ← copyChunkM out op src litLen
      pure (some (ip + 1 + litLen, op + litLen, out))
  else
    match ← refM inp (ip + 1) ctrl.toNat with
    | none => pure none
    | some (mLen, off, ip) =>
    if op < off ∨ expectedLen < op + mLen then pure none
    else if op - off + mLen ≤ op then do
      let src ← slice out (op - off) (op - off + mLen)
      let out ← copyChunkM out op src mLen
      pure (some (ip, op + mLen, out))
    else do
      let out ← copyBytesM (op - off) op mLen out
      pure (some (ip, op + mLen, out))

def decompressLoopM (inp : Bytes) (expectedLen : Nat) : Nat → Nat → Nat → Bytes → Checked (Option Bytes)
  | 0, ip, op, out => pure (if inp.length ≤ ip ∧ op = expectedLen then some out else none)
  | fuel + 1, ip, op, out =>
    if inp.length ≤ ip then pure (if op = expectedLen then some out else none)
    else do
      match ← tokenM inp expectedLen ip op out with
      | none => pure none
      | some (ip, op, out) => decompressLoopM inp expectedLen fuel ip op out

/-- `Decompress`; a length that is negative as an `int` is beyond the allocator's limit too. -/
def decompressM (expectedLen : Nat) : Checked (Option Bytes) := do
  make maxAlloc expectedLen
  decompressLoopM inp expectedLen inp.length 0 0 (List.replicate expectedLen 0)

section
variable {out src : Bytes} {op n : Nat}

lemma copyChunkM_eq (hsrc : n ≤ src.length) (hop : op + n ≤ out.length) :
    ∃ out', copyChunkM out op src n = pure out' ∧ out'.length = out.length ∧
      out'.take (op + n) = out.take op ++ src.take n := by
  refine ⟨out.take op ++ (src.take n ++ out.drop (op + n)), ?_, ?_, ?_⟩
  · unfold copyChunkM
    rw [slice_eq (by omega) le_rfl, pure_bind,
      slice_eq (Nat.zero_le _) (by rw [take_length, length_drop]; omega), pure_bind,
      slice_eq (Nat.zero_le _) hsrc, pure_bind, drop_zero]
  · simp only [length_append, length_take, length_drop]
    omega
  · rw [← append_assoc, take_left']
    simp only [length_append, length_take]
    omega

lemma copyBytesM_eq : ∀ (n ref op : Nat) (out : Bytes), ref < op → op + n ≤ out.length →
    ∃ out', copyBytesM ref op n out = pure out' ∧ out'.length = out.length ∧
      out'.take (op + n) = copyFrom ref n (out.take op)
  | 0, _, _, out, _, _ => ⟨out, rfl, rfl, rfl⟩
  | n + 1, ref, op, out, href, hop => by
    have hlt : ref < out.length := by omega
    have hindex : index out ref = pure out[ref] := by
      rw [index, getElem?_eq_getElem hlt]
    have hget : (out.take op).getD ref default = out[ref] := by
      rw [getD_eq_getElem?_getD, getElem?_take_of_lt href, getElem?_eq_getElem hlt]
      rfl
    have htake : (out.set op out[ref]).take (op + 1) = out.take op ++ [out[ref]] := by
      rw [take_add_one, getElem?_set_self (by omega), take_set_of_le le_rfl]
      rfl
    obtain ⟨out', hcopy, hlen, hout⟩ := copyBytesM_eq n (ref + 1) (op + 1) (out.set op out[ref]) (by omega)
      (by rw [length_set]; omega)
    refine ⟨out', ?_, by rw [hlen, length_set], ?_⟩
    · rw [copyBytesM, hindex, pure_bind, store, if_pos (by omega), pure_bind]
      exact hcopy
    · rw [copyFrom, hget, ← htake, ← hout]
      congr 1
      omega

end

lemma copyFrom_chunk : ∀ (n ref : Nat) (out : Bytes), ref + n ≤ out.length →
    copyFrom ref n out = out ++ (out.drop ref).take n
  | 0, _, out, _ => by rw [copyFrom, take_zero, append_nil]
  | n + 1, ref, out, h => by
    have hlt : ref < out.length := by omega
    have hget : out.getD ref default = out[ref] := getD_eq_getElem _ _ hlt
    rw [copyFrom, hget, copyFrom_chunk n (ref + 1) _ (by simp; omega), append_assoc, drop_append_of_le_length hlt,
      take_append_of_le_length (by rw [length_drop]; omega), drop_eq_getElem_cons hlt, take_succ_cons]
    rfl

lemma drop_succ_of_cons {α : Type} {xs rest : List α} {i : Nat} {a : α} (h : xs.drop i = a :: rest) :
    xs.drop (i + 1) = rest := by
  rw [← tail_drop, h, tail_cons]

lemma refLowM_eq (ip mLen off : Nat) : refLowM inp ip mLen off =
      pure ((inp.drop ip).head?.map fun low => (mLen + 2, off + low.toNat, ip + 1)) := by
  unfold refLowM
  rcases h : inp.drop ip with _ | ⟨low, rest⟩
  · rw [if_pos (drop_eq_nil_iff.1 h)]
    rfl
  have hip : ¬ inp.length ≤ ip := fun hle => by rw [drop_eq_nil_of_le hle] at h; cases h
  rw [if_neg hip, index_cons_drop h, pure_bind]
  rfl

lemma refM_eq {inp rest : Bytes} {ip : Nat} (h : inp.drop ip = rest) (ctrl : Nat) :
    ∃ mLen ip', (if ctrl / 32 = 7 then (ctrl / 32 + (rest.headD 0).toNat, rest.tail) else (ctrl / 32, rest)) =
        (mLen, inp.drop ip') ∧ refM inp ip ctrl =
        pure ((inp.drop ip').head?.map fun low => (mLen + 2, ctrl % 32 * 256 + 1 + low.toNat, ip' + 1)) := by
  unfold refM
  split_ifs with h7 hip
  · obtain rfl : rest = [] := h ▸ drop_eq_nil_of_le hip
    exact ⟨_, ip, by rw [h]; rfl, by rw [h]; rfl⟩
  · rcases rest with _ | ⟨more, rest⟩
    · exact absurd (drop_eq_nil_iff.1 h) hip
    refine ⟨_, ip + 1, by rw [drop_succ_of_cons h]; rfl, ?_⟩
    rw [index_cons_drop h, pure_bind]
    exact refLowM_eq _ _ _ _
  · exact ⟨_, ip, by rw [h], refLowM_eq _ _ _ _⟩

lemma tokenM_eq {inp rest out : Bytes} {L ip op : Nat} {ctrl : UInt8} (hrest : inp.drop ip = ctrl :: rest)
    (hop : op ≤ L) (hlen : out.length = L) :
    (tokenM inp L ip op out = pure none ∧ ∀ fuel, decompressLoop L (fuel + 1) (ctrl :: rest) (out.take op) = none) ∨
      ∃ ip' op' out', tokenM inp L ip op out = pure (some (ip', op', out')) ∧ op' ≤ L ∧ out'.length = L ∧
        ∀ fuel, decompressLoop L (fuel + 1) (ctrl :: rest) (out.take op) =
          decompressLoop L fuel (inp.drop ip') (out'.take op') := by
  have hpre : (out.take op).length = op := length_take_of_le (by omega)
  have hrest' := drop_succ_of_cons hrest
  have hinp : rest.length = inp.length - (ip + 1) := by rw [← hrest', length_drop]
  unfold tokenM
  rw [index_cons_drop hrest, pure_bind]
  by_cases hlit : ctrl.toNat < 32
  · simp only [decompressLoop, if_pos hlit]
    by_cases hbad : inp.length < ip + 1 + (ctrl.toNat + 1) ∨ L < op + (ctrl.toNat + 1)
    · refine .inl ⟨if_pos hbad, fun _ => if_pos ?_⟩
      omega
    have hsrc : (inp.take (ip + 1 + (ctrl.toNat + 1))).drop (ip + 1) = rest.take (ctrl.toNat + 1) := by
      rw [drop_take, hrest']
      congr 1
      omega
    obtain ⟨out', hcopy, hlen', hout⟩ := @copyChunkM_eq out (rest.take (ctrl.toNat + 1)) op (ctrl.toNat + 1)
      (by rw [length_take]; omega) (by omega)
    refine .inr ⟨ip + 1 + (ctrl.toNat + 1), op + (ctrl.toNat + 1), out', ?_, by omega, hlen'.trans hlen, fun fuel => ?_⟩
    · rw [if_neg hbad, slice_eq (by omega) (by omega), pure_bind, hsrc, hcopy, pure_bind]
    · rw [if_neg (by rw [hpre]; omega), hout, take_take, min_self, ← hrest', drop_drop]
  obtain ⟨mLen, ip', hhead, href⟩ := refM_eq hrest' ctrl.toNat
  simp only [decompressLoop, if_neg hlit, href, pure_bind, hhead]
  rcases hdrop : inp.drop ip' with _ | ⟨low, rest'⟩
  · exact .inl ⟨rfl, fun _ => rfl⟩
  simp only [head?_cons, Option.map_some]
  generalize hoff : ctrl.toNat % 32 * 256 + 1 + low.toNat = off
  by_cases hbad : op < off ∨ L < op + (mLen + 2)
  · refine .inl ⟨if_pos hbad, fun _ => if_pos ?_⟩
    rw [hpre]
    exact hbad
  -- whichever way the bytes are copied, the buffer holds what the pure copy appends
  have hcopy : ∃ out', (if op - off + (mLen + 2) ≤ op then do
        let src ← slice out (op - off) (op - off + (mLen + 2))
        let out ← copyChunkM out op src (mLen + 2)
        pure (some (ip' + 1, op + (mLen + 2), out))
      else do
        let out ← copyBytesM (op - off) op (mLen + 2) out
        pure (some (ip' + 1, op + (mLen + 2), out))) = pure (some (ip' + 1, op + (mLen + 2), out')) ∧
      out'.length = out.length ∧ out'.take (op + (mLen + 2)) = copyFrom (op - off) (mLen + 2) (out.take op) := by
    by_cases hclear : op - off + (mLen + 2) ≤ op
    · have hsrc : (out.take (op - off + (mLen + 2))).drop (op - off) =
          ((out.take op).drop (op - off)).take (mLen + 2) := by
        rw [drop_take, drop_take, take_take]
        congr 1
        omega
      obtain ⟨out', hcopy, hlen', hout⟩ := @copyChunkM_eq out (((out.take op).drop (op - off)).take (mLen + 2)) op
        (mLen + 2) (by rw [length_take, length_drop, hpre]; omega) (by omega)
      refine ⟨out', ?_, hlen', ?_⟩
      · rw [if_pos hclear, slice_eq (by omega) (by omega), pure_bind, hsrc, hcopy, pure_bind]
      · rw [hout, copyFrom_chunk _ _ _ (by rw [hpre]; exact hclear), take_take, min_self]
    · obtain ⟨out', hcopy, hlen', hout⟩ := copyBytesM_eq (mLen + 2) (op - off) op out (by omega) (by omega)
      exact ⟨out', by rw [if_neg hclear, hcopy, pure_bind], hlen', hout⟩
  obtain ⟨out', hcopy, hlen', hout⟩ := hcopy
  refine .inr ⟨ip' + 1, op + (mLen + 2), out', (if_neg hbad).trans hcopy, by omega, hlen'.trans hlen, fun fuel => ?_⟩
  rw [if_neg (by rw [hpre]; exact hbad), hpre, hout, drop_succ_of_cons hdrop]

lemma decompressLoopM_eq {inp : Bytes} {L : Nat} : ∀ (fuel ip op : Nat) (out : Bytes), op ≤ L → out.length = L →
    decompressLoopM inp L fuel ip op out = pure (decompressLoop L fuel (inp.drop ip) (out.take op))
  | fuel, ip, op, out, hop, hlen => by
    have hend : inp.drop ip = [] → decompressLoop L fuel (inp.drop ip) (out.take op) =
        if op = L then some out else none := by
      intro h
      rw [h, decompressLoop, length_take_of_le (by omega)]
      split_ifs with hL
      · rw [take_of_length_le (by omega)]
      · rfl
    cases fuel with
    | zero =>
      rw [decompressLoopM]
      rcases hrest : inp.drop ip with _ | ⟨ctrl, rest⟩
      · rw [← hrest, hend hrest]
        simp [drop_eq_nil_iff.1 hrest, true_and]
      have hip : ¬ inp.length ≤ ip := fun hle => by rw [drop_eq_nil_of_le hle] at hrest; cases hrest
      rw [if_neg (fun h => hip h.1)]
      rfl
    | succ fuel =>
    rw [decompressLoopM]
    rcases hrest : inp.drop ip with _ | ⟨ctrl, rest⟩
    · rw [← hrest, hend hrest, if_pos (drop_eq_nil_iff.1 hrest)]
    have hip : ¬ inp.length ≤ ip := fun hle => by rw [drop_eq_nil_of_le hle] at hrest; cases hrest
    rw [if_neg hip]
    rcases tokenM_eq hrest hop hlen with ⟨htoken, hpure⟩ | ⟨ip', op', out', htoken, hop', hlen', hpure⟩
    · rw [htoken, pure_bind, hpure]
    · rw [htoken, pure_bind, hpure]
      exact decompressLoopM_eq fuel ip' op' out' hop' hlen'

lemma decompressM_computes (L : Nat) : Checked.Computes maxAlloc (decompressM inp L) (decompress inp L) [L] := by
  refine (Checked.Computes.make L).map ?_
  rw [decompressLoopM_eq _ _ _ _ (Nat.zero_le _) (length_replicate ..)]
  exact .pure _

/-! ## Strings and values -/

abbrev CDec := CReader UInt64 RdbError

def readStringM : CDec Bytes := do
  let (length, encType) ← lift readLen
  match encType with
  | none => do
    make maxAlloc length
    lift (readFull length)
  | some 0 => lift (readIntString 1)
  | some 1 => lift (readIntString 2)
  | some 2 => lift (readIntString 4)
  | some 3 => do
    let cLen ← lift readLen
    let uLen ← lift readLen
    make maxAlloc cLen.1
    let cData ← lift (readFull cLen.1)
    match ← ofChecked (decompressM cData uLen.1) with
    | some data => pure data
    | none => lift (Reader.fail .lzfCorruptedData)
  | some _ => lift (Reader.fail .corruptedRDB)

def readPairM : CDec (Bytes × Bytes) := do
  let a ← readStringM
  let b ← readStringM
  pure (a, b)

/-- A count, a slice with room for that many elements of `width` bytes, and that many readings. -/
def readCountedM {α : Type} (room : Nat → Nat) (p : CDec α) : CDec (List α) := do
  let count ← lift readLen
  make maxAlloc (room count.1)
  times p count.1

variable (count : Nat)

/-- The room for a collection of `count` elements: a slice header, a string, twice the count (in
`uint64` arithmetic) of slice headers for a hash, a member with its score. -/
def listRoom : Nat := count * 24

def setRoom : Nat := count * 16

def hashRoom : Nat := count * 2 % 2 ^ 64 * 24

def zsetRoom : Nat := count * 24

variable (E : Env)

def readValueM (valType : UInt8) : CDec (Option Value) :=
  match valType.toNat with
  | 0 => do
    let b ← readStringM
    pure (some (.str b))
  | 1 | 14 => do
    let items ← readCountedM listRoom readStringM
    pure (some (.list items))
  | 2 => do
    let members ← readCountedM setRoom readStringM
    pure (some (newSetFrom E members))
  | 4 => do
    let entries ← readCountedM hashRoom readPairM
    pure (some (newHashFrom E entries))
  | 3 | 5 => do
    let pairs ← readCountedM zsetRoom readPairM
    let entries := pairs.map fun p => (p.1, (E.parseFloat p.2).1)
    pure (some (newZSetFrom E (entries.mergeSort fun a b => !entryLess E b a)))
  | _ => do
    skip readStringM
    pure none

/-! ## The load loop -/

variable (now : Clock)

def loadRecordM (b : UInt8) (expireAt : Int) (db : Keyspace) : CDec (Option (Int × Keyspace)) :=
  match b.toNat with
  | 250 => do
    skip readStringM
    skip readStringM
    pure (some (expireAt, db))
  | 254 => do
    skip (lift readLen)
    pure (some (expireAt, db))
  | 251 => do
    skip (lift readLen)
    skip (lift readLen)
    pure (some (expireAt, db))
  | 252 => do
    let expBuf ← lift (readFull 8)
    pure (some (wrap64 (leVal expBuf), db))
  | 253 => do
    let expBuf ← lift (readFull 4)
    pure (some (leVal expBuf * 1000, db))
  | 255 => do
    lift readFooter
    pure none
  | _ => do
    let key ← readStringM
    let robj ← readValueM E b
    pure (some (0, robj.elim db fun v => storeLoaded now db key v expireAt))

def loadLoopM : Nat → Int → Keyspace → Input UInt64 → Checked (Except RdbError Unit × Keyspace)
  | 0, _, db, _ => pure (.ok (), db)
  | fuel + 1, expireAt, db, s =>
    match readByte s with
    | (.error .eof, _) => pure (.ok (), db)
    | (.error e, _) => pure (.error e, db)
    | (.ok b, s) => do
      match ← loadRecordM E now b expireAt db s with
      | (.error e, _) => pure (.error e, db)
      | (.ok none, _) => pure (.ok (), db)
      | (.ok (some (expireAt, db)), s) => loadLoopM fuel expireAt db s

def loadM (data : Bytes) (db : Keyspace) : Checked (Except RdbError Unit × Keyspace) :=
  match readHeader ⟨data, 0⟩ with
  | (.error e, _) => pure (.error e, db)
  | (.ok _, s) => loadLoopM E now (s.rest.length + 1) 0 db s

end Gopherdis.Rdb
