/-
When loading a snapshot is safe: the decoder asks for memory by the lengths it finds in the input
before it has seen the bytes, so it is safe exactly on the inputs whose lengths are modest.
-/
import Gopherdis.Command.Expire
import Gopherdis.Rdb.Memory

namespace Gopherdis.Rdb

open Lib Object Store List CReader

/-! ## The lengths an input declares -/

/-- The lengths of a string: its own, or both of a compressed one, the second once the compressed
bytes are there. -/
def stringSizes (s : Input UInt64) : List Nat :=
  match readLen s with
  | (.ok (length, none), _) => [length]
  | (.ok (_, some 3), s) =>
    match readLen s with
    | (.ok cLen, s) =>
      match readLen s with
      | (.ok uLen, s) => if cLen.1 ≤ s.rest.length then [cLen.1, uLen.1] else [cLen.1]
      | _ => []
    | _ => []
  | _ => []

def pairSizes : Input UInt64 → List Nat := sizesThen stringSizes readString fun _ => stringSizes

/-- The room for a collection, and the lengths of its elements. -/
def countedSizes {α : Type} (room : Nat → Nat) (d : Input UInt64 → List Nat) (p : Dec α) (s : Input UInt64) : List Nat :=
  match readLen s with
  | (.ok count, s) => room count.1 :: sizesTimes d p count.1 s
  | _ => []

def valueSizes (valType : UInt8) : Input UInt64 → List Nat :=
  match valType.toNat with
  | 0 => stringSizes
  | 1 | 14 => countedSizes listRoom stringSizes readString
  | 2 => countedSizes setRoom stringSizes readString
  | 4 => countedSizes hashRoom pairSizes readPair
  | 3 | 5 => countedSizes zsetRoom pairSizes readPair
  | _ => stringSizes

def recordSizes (b : UInt8) : Input UInt64 → List Nat :=
  match b.toNat with
  | 250 => fun s => stringSizes s ++ stringSizes (readString s).2
  | 254 | 251 | 252 | 253 | 255 => fun _ => []
  | _ => sizesThen stringSizes readString fun _ => valueSizes b

variable (E : Env) (now : Clock)

def loopSizes : Nat → Int → Keyspace → Input UInt64 → List Nat
  | 0, _, _, _ => []
  | fuel + 1, expireAt, db, s =>
    match readByte s with
    | (.ok b, s) => recordSizes b s ++
      match loadRecord E now b expireAt db s with
      | (.ok (some (expireAt, db)), s) => loopSizes fuel expireAt db s
      | _ => []
    | _ => []

/-- The lengths a whole file declares, as far as it is read. -/
def declaredSizes (data : Bytes) (db : Keyspace) : List Nat :=
  match readHeader ⟨data, 0⟩ with
  | (.ok _, s) => loopSizes E now (s.rest.length + 1) 0 db s
  | _ => []

/-! ## What the decoder asks for -/

/-- The bytes of a compressed string, then what they decompress to. -/
def readLzfM (cLen uLen : Nat) : CDec Bytes := do
  let cData ← lift (readFull cLen)
  match ← ofChecked (decompressM cData uLen) with
  | some data => pure data
  | none => lift (Reader.fail .lzfCorruptedData)

def readLzf (cLen uLen : Nat) : Dec Bytes := do
  let cData ← readFull cLen
  match decompress cData uLen with
  | some data => return data
  | none => Reader.fail .lzfCorruptedData

lemma readLzfM_computes (cLen uLen : Nat) : CReader.Computes maxAlloc (readLzfM cLen uLen) (readLzf cLen uLen)
      fun s => if cLen ≤ s.rest.length then [uLen] else [] := by
  have h : CReader.Computes maxAlloc (readLzfM cLen uLen) (readLzf cLen uLen)
      (sizesThen (fun _ => []) (readFull cLen) fun _ _ => [uLen]) := by
    refine CReader.Computes.lift_bind (readFull cLen) fun cData =>
      CReader.Computes.checked_bind (decompressM_computes cData uLen) ?_
    rcases decompress cData uLen with _ | data
    · exact .lift _
    · exact .pure _
  intro s
  convert h s using 1
  unfold sizesThen readFull Reader.readFull
  by_cases hlen : cLen ≤ s.rest.length
  · rw [if_pos hlen]
    exact if_pos hlen
  · rw [if_neg hlen]
    exact if_neg hlen

lemma readStringM_computes : CReader.Computes maxAlloc readStringM readString stringSizes := by
  have h : CReader.Computes maxAlloc readStringM readString (sizesThen (fun _ => []) readLen fun r =>
      match r.2 with
      | none => fun _ => [r.1]
      | some 3 => sizesThen (fun _ => []) readLen fun cLen => sizesThen (fun _ => []) readLen
          fun uLen s => cLen.1 :: if cLen.1 ≤ s.rest.length then [uLen.1] else []
      | some _ => fun _ => []) := by
    refine CReader.Computes.lift_bind readLen ?_
    rintro ⟨length, encType⟩
    match encType with
    | none => exact CReader.Computes.make_bind length (.lift _)
    | some 0 => exact .lift _
    | some 1 => exact .lift _
    | some 2 => exact .lift _
    | some 3 =>
      exact CReader.Computes.lift_bind readLen fun cLen => CReader.Computes.lift_bind readLen fun uLen =>
        CReader.Computes.make_bind cLen.1 (readLzfM_computes cLen.1 uLen.1)
    | some (n + 4) => exact .lift _
  intro s
  convert h s using 1
  unfold stringSizes sizesThen
  rcases readLen s with ⟨e | ⟨length, _ | n⟩, s1⟩
  · rfl
  · rfl
  match n with
  | 0 | 1 | 2 => rfl
  | 3 =>
    simp only [nil_append]
    rcases readLen s1 with ⟨e | cLen, s2⟩
    · rfl
    simp only
    rcases readLen s2 with ⟨e | uLen, s3⟩
    · rfl
    simp only
    split_ifs <;> rfl
  | n + 4 => rfl

lemma readPairM_computes : CReader.Computes maxAlloc readPairM readPair pairSizes :=
  readStringM_computes.bind fun _ => readStringM_computes.map fun _ => .pure _

lemma readCountedM_computes {α : Type} (room : Nat → Nat) {P : CDec α} {p : Dec α} {d : Input UInt64 → List Nat}
    (hP : CReader.Computes maxAlloc P p d) :
    CReader.Computes maxAlloc (readCountedM room P) (readCounted p) (countedSizes room d p) := by
  have h : CReader.Computes maxAlloc (readCountedM room P) (readCounted p) _ :=
    CReader.Computes.lift_bind readLen fun count => CReader.Computes.make_bind (room count.1) (hP.times count.1)
  intro s
  convert h s using 1
  unfold countedSizes sizesThen
  rcases readLen s with ⟨e | count, s'⟩ <;> rfl

lemma readValueM_computes (valType : UInt8) :
    CReader.Computes maxAlloc (readValueM E valType) (readValue E valType) (valueSizes valType) := by
  by_cases hknown : valType.toNat ∈ [0, 1, 14, 2, 4, 3, 5]
  · unfold readValueM readValue valueSizes
    generalize valType.toNat = n at hknown ⊢
    simp only [mem_cons, not_mem_nil, or_false] at hknown
    rcases hknown with rfl | rfl | rfl | rfl | rfl | rfl | rfl <;> simp only
    · exact readStringM_computes.map fun _ => .pure _
    iterate 3 exact (readCountedM_computes _ readStringM_computes).map fun _ => .pure _
    all_goals exact (readCountedM_computes _ readPairM_computes).map fun _ => .pure _
  simp only [mem_cons, not_mem_nil, or_false, not_or] at hknown
  have hM : readValueM E valType = (do skip readStringM; pure none) := by
    unfold readValueM
    split <;> first | omega | rfl
  have hpure : readValue E valType = (do Reader.skip readString; return none) := by
    unfold readValue
    split <;> first | omega | rfl
  have hsizes : valueSizes valType = stringSizes := by
    unfold valueSizes
    split <;> first | omega | rfl
  rw [hM, hpure, hsizes]
  exact readStringM_computes.skip.map fun _ => .pure _

lemma loadRecordM_computes (b : UInt8) (x : Int) (db : Keyspace) :
    CReader.Computes maxAlloc (loadRecordM E now b x db) (loadRecord E now b x db) (recordSizes b) := by
  have hlift : ∀ {α β : Type} (p : Dec α) (f : α → β),
      CReader.Computes maxAlloc (lift p >>= fun a => pure (f a)) (p >>= fun a => pure (f a)) fun _ => [] :=
    fun p f => (CReader.Computes.lift p).map fun _ => .pure _
  have hskip : CReader.Computes maxAlloc (skip (lift readLen)) (Reader.skip readLen) fun _ => [] :=
    (CReader.Computes.lift readLen).skip
  by_cases hknown : b.toNat ∈ [250, 254, 251, 252, 253, 255]
  · unfold loadRecordM loadRecord recordSizes
    generalize b.toNat = n at hknown ⊢
    simp only [mem_cons, not_mem_nil, or_false] at hknown
    rcases hknown with rfl | rfl | rfl | rfl | rfl | rfl <;> simp only
    · intro s
      have h := readStringM_computes.skip.bind fun _ => readStringM_computes.skip.map fun _ =>
        CReader.Computes.pure (some (x, db))
      exact h s
    · exact hskip.map fun _ => .pure _
    · exact hskip.map fun _ => hskip.map fun _ => .pure _
    · exact hlift (readFull 8) _
    · exact hlift (readFull 4) _
    · exact hlift readFooter _
  simp only [mem_cons, not_mem_nil, or_false, not_or] at hknown
  have hM : loadRecordM E now b x db = (do
      let key ← readStringM
      let robj ← readValueM E b
      pure (some (0, robj.elim db fun v => storeLoaded now db key v x))) := by
    unfold loadRecordM
    split <;> first | omega | rfl
  have hpure : loadRecord E now b x db = (do
      let key ← readString
      let robj ← readValue E b
      return some (0, robj.elim db fun v => storeLoaded now db key v x)) := by
    unfold loadRecord
    split <;> first | omega | rfl
  have hsizes : recordSizes b = sizesThen stringSizes readString fun _ => valueSizes b := by
    unfold recordSizes
    split <;> first | omega | rfl
  rw [hM, hpure, hsizes]
  exact readStringM_computes.bind fun _ => (readValueM_computes E b).map fun _ => .pure _

lemma loadLoopM_computes : ∀ (fuel : Nat) (x : Int) (db : Keyspace) (s : Input UInt64),
    Checked.Computes maxAlloc (loadLoopM E now fuel x db s) (loadLoop E now fuel x db s) (loopSizes E now fuel x db s)
  | 0, _, _, _ => .pure _
  | fuel + 1, x, db, s => by
    rw [loadLoopM, loadLoop, loopSizes]
    rcases readByte s with ⟨e | b, s'⟩
    · cases e <;> exact .pure _
    simp only
    refine (loadRecordM_computes E now b x db s').bind ?_
    rcases loadRecord E now b x db s' with ⟨e | _ | ⟨x', db'⟩, s''⟩
    · exact .pure _
    · exact .pure _
    · exact loadLoopM_computes fuel x' db' s''

lemma loadM_computes (data : Bytes) (db : Keyspace) :
    Checked.Computes maxAlloc (loadM E now data db) (load E now data db) (declaredSizes E now data db) := by
  unfold loadM load declaredSizes
  rcases readHeader ⟨data, 0⟩ with ⟨e | ver, s⟩
  · exact .pure _
  · exact loadLoopM_computes E now _ _ _ s

/-! ## The loop ends -/

lemma readFull_consumes (n : Nat) : (readFull n).Consumes := Reader.Consumes.readFull _ _ _ n

lemma readByte_consumes : readByte.Consumes := (readFull_consumes 1).bind fun _ => .pure _

lemma readLen_consumes : readLen.Consumes := by
  refine readByte_consumes.bind fun first => ?_
  split
  · exact .pure _
  · exact readByte_consumes.bind fun _ => .pure _
  · split_ifs
    · exact (readFull_consumes 4).bind fun _ => .pure _
    · exact (readFull_consumes 8).bind fun _ => .pure _
    · exact .fail _
  · exact .pure _

lemma readIntString_consumes (w : Nat) : (readIntString w).Consumes := (readFull_consumes w).bind fun _ => .pure _

lemma readString_consumes : readString.Consumes := by
  refine readLen_consumes.bind fun r => ?_
  obtain ⟨length, encType⟩ := r
  match encType with
  | none => exact readFull_consumes length
  | some 0 => exact readIntString_consumes 1
  | some 1 => exact readIntString_consumes 2
  | some 2 => exact readIntString_consumes 4
  | some 3 =>
    refine readLen_consumes.bind fun cLen => readLen_consumes.bind fun uLen =>
      (readFull_consumes cLen.1).bind fun cData => ?_
    split
    · exact .pure _
    · exact .fail _
  | some (n + 4) => exact .fail _

lemma readPair_consumes : readPair.Consumes := readString_consumes.bind fun _ => readString_consumes.bind fun _ => .pure _

lemma readCounted_consumes {α : Type} {p : Dec α} (hp : p.Consumes) : (readCounted p).Consumes :=
  readLen_consumes.bind fun count => hp.times count.1

lemma readValue_consumes (valType : UInt8) : (readValue E valType).Consumes := by
  have hstrings := readCounted_consumes readString_consumes
  have hpairs := readCounted_consumes readPair_consumes
  unfold readValue
  split
  · exact readString_consumes.bind fun _ => .pure _
  iterate 3 exact hstrings.bind fun _ => .pure _
  iterate 3 exact hpairs.bind fun _ => .pure _
  · exact readString_consumes.skip.bind fun _ => .pure _

lemma readFooter_consumes : readFooter.Consumes := by
  intro s
  unfold readFooter
  simp only
  split_ifs <;> simp

lemma loadRecord_consumes (b : UInt8) (x : Int) (db : Keyspace) : (loadRecord E now b x db).Consumes := by
  unfold loadRecord
  split
  · exact readString_consumes.skip.bind fun _ => readString_consumes.skip.bind fun _ => .pure _
  · exact readLen_consumes.skip.bind fun _ => .pure _
  · exact readLen_consumes.skip.bind fun _ => readLen_consumes.skip.bind fun _ => .pure _
  · exact (readFull_consumes 8).bind fun _ => .pure _
  · exact (readFull_consumes 4).bind fun _ => .pure _
  · exact readFooter_consumes.bind fun _ => .pure _
  · exact readString_consumes.bind fun _ => (readValue_consumes E b).bind fun _ => .pure _

lemma readByte_lt {s s' : Input UInt64} {b : UInt8} (h : readByte s = (.ok b, s')) :
    s'.rest.length < s.rest.length := by
  obtain ⟨rest, d⟩ := s
  rcases rest with _ | ⟨c, rest⟩
  · cases h
  · obtain ⟨-, rfl⟩ := Prod.mk.inj h
    exact Nat.lt_succ_self _

lemma loadLoop_fuel : ∀ (fuel fuel' : Nat) (x : Int) (db : Keyspace) (s : Input UInt64), s.rest.length < fuel →
    s.rest.length < fuel' → loadLoop E now fuel x db s = loadLoop E now fuel' x db s
  | fuel + 1, fuel' + 1, x, db, s, h, h' => by
    rw [loadLoop, loadLoop]
    rcases hb : readByte s with ⟨e | b, s1⟩
    · cases e <;> rfl
    have hlt := readByte_lt hb
    have hle := loadRecord_consumes E now b x db s1
    simp only
    rcases hr : loadRecord E now b x db s1 with ⟨e | _ | ⟨x', db'⟩, s2⟩
    · rfl
    · rfl
    rw [hr] at hle
    simp only at hle ⊢
    exact loadLoop_fuel fuel fuel' x' db' s2 (by omega) (by omega)

end Gopherdis.Rdb

namespace Gopherdis.Command

open Lib Codec Object Store Rdb

/-! ## RESTORE -/

def dumpBodyM (payload : Bytes) : Checked (Option Bytes) :=
  if payload.length < dumpFooterLen then pure none
  else do
    let verOff := payload.length - dumpFooterLen
    let body ← Checked.slice payload 0 verOff
    let version ← Checked.slice payload verOff (verOff + 2)
    let want ← Checked.slice payload (verOff + 2) payload.length
    let signed ← Checked.slice payload 0 (verOff + 2)
    pure (if leVal version = dumpVersion ∧ (crc64 0 signed).toNat = leVal want then some body else none)

def restoredValueM (E : Env) (now : Clock) (body : Bytes) : Checked (Option Value) := do
  match ← loadM E now body ∅ with
  | (.error _, _) => pure none
  | (.ok _, scratch) =>
    if h : (scratch.keysAll now).card = 1 then
      pure (scratch.get now (onlyMember h)).2
    else pure none

variable (ctx : Context) (argv : Argv) (db : Keyspace)

def restoreCommandM : Checked Outcome :=
  let key := argv.getD 1 []
  match parseInt (argv.getD 2 []) with
  | none => pure ⟨db, notAnInteger, none⟩
  | some ttlMs =>
  if ttlMs < 0 then pure ⟨db, error (ascii "Invalid TTL value, must be >= 0"), none⟩
  else
    match restoreOptions (argv.drop 4) {} with
    | .error e => pure ⟨db, e, none⟩
    | .ok o => do
      match ← dumpBodyM (argv.getD 3 []) with
      | none => pure ⟨db, error (ascii "DUMP payload version or checksum are wrong"), none⟩
      | some body =>
      if ¬ o.replace ∧ db.has ctx.now key then
        pure ⟨db, error (ascii "BUSYKEY Target key name already exists."), none⟩
      else do
        match ← restoredValueM ctx.E ctx.now body with
        | none => pure ⟨db, badDataFormat, none⟩
        | some v =>
        let db := db.set key v
        if 0 < ttlMs then
          if o.absTTL then pure ⟨(db.setExpireAt ctx.now key ttlMs).1, ok, none⟩
          else pure ⟨(db.setExpire ctx.now key (wrap64 (ttlMs * 10 ^ 6))).1, ok, none⟩
        else pure ⟨db, ok, none⟩

/-- The lengths a `RESTORE` meets: those of the snapshot in its payload, if it comes to load it. -/
def restoreSizes : List Nat :=
  match parseInt (argv.getD 2 []), restoreOptions (argv.drop 4) {}, dumpBody (argv.getD 3 []) with
  | some ttlMs, .ok o, some body =>
    if ttlMs < 0 ∨ (¬ o.replace ∧ db.has ctx.now (argv.getD 1 [])) then [] else declaredSizes ctx.E ctx.now body ∅
  | _, _, _ => []

lemma dumpBodyM_eq (payload : Bytes) : dumpBodyM payload = pure (dumpBody payload) := by
  unfold dumpBodyM dumpBody
  by_cases hshort : payload.length < dumpFooterLen
  · rw [if_pos hshort, if_pos hshort]
  have hlen : 10 ≤ payload.length := by
    rw [dumpFooterLen] at hshort
    omega
  have hver : ∀ off, off = payload.length - dumpFooterLen →
      (payload.take (off + 2)).drop off = (payload.drop off).take 2 := by
    rintro off -
    rw [List.drop_take]
    congr 1
    omega
  rw [if_neg hshort, if_neg hshort]
  simp only
  rw [Checked.slice_eq (Nat.zero_le _) (by omega), Checked.pure_bind,
    Checked.slice_eq (by omega) (by rw [dumpFooterLen]; omega), Checked.pure_bind,
    Checked.slice_eq (by rw [dumpFooterLen]; omega) le_rfl, Checked.pure_bind,
    Checked.slice_eq (Nat.zero_le _) (by rw [dumpFooterLen]; omega), Checked.pure_bind, hver _ rfl, List.take_length,
    List.drop_zero, List.drop_zero]

lemma restoredValueM_computes (E : Env) (now : Clock) (body : Bytes) :
    Checked.Computes maxAlloc (restoredValueM E now body) (restoredValue E now body) (declaredSizes E now body ∅) := by
  refine (loadM_computes E now body ∅).map ?_
  unfold restoredValue
  rcases load E now body ∅ with ⟨e | u, scratch⟩
  · exact .pure _
  · simp only
    split_ifs <;> exact .pure _

lemma restoreCommandM_computes :
    Checked.Computes maxAlloc (restoreCommandM ctx argv db) (restoreCommand ctx argv db) (restoreSizes ctx argv db) := by
  unfold restoreCommandM restoreCommand restoreSizes
  simp only [dumpBodyM_eq, Checked.pure_bind]
  rcases parseInt (argv.getD 2 []) with _ | ttlMs
  · exact .pure _
  by_cases hneg : ttlMs < 0
  · rcases restoreOptions (argv.drop 4) {} with e | o <;> rcases dumpBody (argv.getD 3 []) with _ | body <;>
      simp only [hneg, if_true, true_or] <;> exact .pure _
  rcases restoreOptions (argv.drop 4) {} with e | o
  · simp only [hneg, if_false]
    exact .pure _
  rcases dumpBody (argv.getD 3 []) with _ | body
  · simp only [hneg, if_false]
    exact .pure _
  by_cases hbusy : ¬ o.replace ∧ db.has ctx.now (argv.getD 1 [])
  · simp only [hneg, if_false, if_pos hbusy, false_or]
    exact .pure _
  simp only [hneg, if_false, if_neg hbusy, false_or]
  refine (restoredValueM_computes ctx.E ctx.now body).map ?_
  rcases restoredValue ctx.E ctx.now body with _ | v
  · exact .pure _
  · split_ifs <;> exact .pure _

/-! ## Safety -/

/-- Loading a snapshot, and restoring a payload, ask for no more than `K` times its length plus `C`
exactly if it declares no more; nothing but a request for memory can fail. -/
theorem decoder_memory_safe_iff (K C : Nat) (E : Env) (now : Clock) (data : Bytes) (db : Keyspace) (ctx : Context)
    (argv : Argv) : ((loadM E now data db).Safe (K * data.length + C) ↔
        ∀ n ∈ declaredSizes E now data db, n ≤ maxAlloc ∧ n ≤ K * data.length + C) ∧
      ((restoreCommandM ctx argv db).Safe (K * (argv.getD 3 []).length + C) ↔
        ∀ n ∈ restoreSizes ctx argv db, n ≤ maxAlloc ∧ n ≤ K * (argv.getD 3 []).length + C) ∧
      (∀ fault ∈ [Fault.index, Fault.slice],
        (loadM E now data db).ends ≠ .error fault ∧ (restoreCommandM ctx argv db).ends ≠ .error fault) := by
  have hload := loadM_computes E now data db
  have hrestore := restoreCommandM_computes ctx argv db
  have hends : ∀ {α : Type} {x : Checked α} {a : α} {sizes : List Nat}, Checked.Computes maxAlloc x a sizes →
      ∀ fault ∈ [Fault.index, Fault.slice], x.ends ≠ .error fault := by
    intro α x a sizes hx fault hmem
    have hne : fault ≠ .makeslice := by
      rintro rfl
      simp at hmem
    rcases hx with ⟨-, rfl⟩ | ⟨-, -, hend⟩
    · simp
    rw [hend]
    rintro h
    exact hne (Except.error.inj h).symm
  exact ⟨hload.safe_iff _, hrestore.safe_iff _, fun fault hmem => ⟨hends hload fault hmem, hends hrestore fault hmem⟩⟩

/-- A header, the type of a string and a key of `2 ^ 63` bytes. -/
def hugeKey : Bytes := writeHeader ++ [0x00, 0x81, 0x80, 0, 0, 0, 0, 0, 0, 0]

theorem load_hugeKey_unsafe : ¬ ∃ K C, (loadM Env.bits ⟨0, by decide⟩ hugeKey ∅).Safe (K * hugeKey.length + C) := by
  rintro ⟨K, C, h⟩
  have hsizes := ((loadM_computes Env.bits ⟨0, by decide⟩ hugeKey ∅).safe_iff _).1 h
  exact absurd (hsizes (2 ^ 63) (by decide)).1 (by decide)

end Gopherdis.Command
