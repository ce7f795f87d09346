/-
Saving and loading a snapshot. Each piece of the format is read back as it was written; what does not
come back is the deadline of a stream, which has no record of its own and so gives its deadline to the
next key that has none, and a deadline so far away that it does not fit a duration.
-/
import Gopherdis.Rdb.Decode

namespace Gopherdis.Rdb

open Lib Object Store List UInt8

variable {v : Value} {entries : List (Bytes × Entry)} {k : Bytes}

/-! ## Lengths and strings -/

abbrev DecReads {α : Type} (p : Dec α) (bs : Bytes) (a : α) : Prop := Reader.Reads crc64Step p bs a

abbrev DecTakes {α : Type} (p : Dec α) (bs : Bytes) (a : α) : Prop := Reader.Takes crc64Step p bs a

lemma takes_readFull {bs : Bytes} {n : Nat} (h : bs.length = n) : DecTakes (readFull n) bs bs :=
  Reader.takes_readFull h

lemma takes_readByte (b : UInt8) : DecTakes readByte [b] b :=
  Reader.Takes.map (takes_readFull rfl) (.pure b)

lemma takes_readLen {n : Nat} (h : n < 2 ^ 64) : DecTakes readLen (writeLen n) (n, none) := by
  unfold writeLen
  by_cases h6 : n < 2 ^ 6
  · have hn : (ofNat n).toNat = n := toNat_ofNat_of_lt (show _ < 256 by omega)
    rw [if_pos h6]
    refine (takes_readByte _).map ?_
    simp only [hn, show n / 2 ^ 6 = 0 by omega, show n % 2 ^ 6 = n by omega]
    exact .pure _
  rw [if_neg h6]
  by_cases h14 : n < 2 ^ 14
  · have hhi : (ofNat (n / 2 ^ 8 + 0x40)).toNat = n / 2 ^ 8 + 0x40 :=
      toNat_ofNat_of_lt (show _ < 256 by omega)
    have hlo : (ofNat (n % 2 ^ 8)).toNat = n % 2 ^ 8 := toNat_ofNat_of_lt (show _ < 256 by omega)
    rw [if_pos h14]
    refine (takes_readByte _).bind ?_
    simp only [hhi, show (n / 2 ^ 8 + 0x40) / 2 ^ 6 = 1 by omega]
    refine (takes_readByte _).map ?_
    rw [hlo, show (n / 2 ^ 8 + 0x40) % 2 ^ 6 * 2 ^ 8 + n % 2 ^ 8 = n by omega]
    exact .pure _
  rw [if_neg h14]
  by_cases h32 : n < 2 ^ 32
  · rw [if_pos h32]
    refine (takes_readByte _).bind ((takes_readFull (beBytes_length 4 n)).map ?_)
    rw [beVal_beBytes (by omega)]
    exact .pure _
  rw [if_neg h32]
  refine (takes_readByte _).bind ((takes_readFull (beBytes_length 8 n)).map ?_)
  rw [beVal_beBytes (by omega)]
  exact .pure _

lemma takes_readString {data : Bytes} (h : data.length < 2 ^ 63) : DecTakes readString (writeString data) data := by
  unfold writeString
  cases hc : compress data with
  | none => exact Reader.Takes.bind (takes_readLen (by omega)) (takes_readFull rfl)
  | some c =>
  have hlt := compress_length_lt hc
  have hmark : DecTakes readLen [0xC3] (0, some 3) := (takes_readByte _).map (.pure _)
  refine hmark.bind ((takes_readLen (by omega)).bind ((takes_readLen (by omega)).bind ((takes_readFull rfl).map ?_)))
  rw [decompress_compress hc]
  exact .pure _

lemma crc64_append (d : UInt64) (as bs : Bytes) : crc64 d (as ++ bs) = crc64 (crc64 d as) bs := foldl_append

lemma writeRaw_append (enc : Encoder) (as bs : Bytes) : (enc.writeRaw as).writeRaw bs = enc.writeRaw (as ++ bs) := by
  simp [Encoder.writeRaw, append_assoc, crc64_append]

lemma encoder_writeString (enc : Encoder) {data : Bytes} (h : data.length < 2 ^ 63) :
    enc.writeString data = enc.writeRaw (writeString data) := by
  have hlen : ∀ n, n < 2 ^ 63 → ∀ enc : Encoder, enc.writeLen (.ofNat n) = enc.writeRaw (writeLen n) := by
    intro n hn enc
    rw [Encoder.writeLen, UInt64.toNat_ofNat', Nat.mod_eq_of_lt (by omega)]
  unfold Encoder.writeString writeString
  cases hc : compress data with
  | none => simp [hlen _ h, writeRaw_append]
  | some c =>
    have hlt := compress_length_lt hc
    simp only [hlen _ h, hlen _ (hlt.trans h), writeRaw_append]
    simp

/-- Lengths and strings are read back as they were written, up to where they end and with the encoder's checksum. -/
theorem lengths_and_strings_delimit (enc : Encoder) (rest : Bytes) :
    (∀ n : UInt64, ∃ bs, (enc.writeLen n).out = enc.out ++ bs ∧
      readLen ⟨bs ++ rest, enc.crc⟩ = (.ok (n.toNat, none), ⟨rest, (enc.writeLen n).crc⟩)) ∧
    ∀ s : Bytes, s.length < 2 ^ 63 → ∃ bs, (enc.writeString s).out = enc.out ++ bs ∧
      readString ⟨bs ++ rest, enc.crc⟩ = (.ok s, ⟨rest, (enc.writeString s).crc⟩) := by
  constructor
  · intro n
    exact ⟨writeLen n.toNat, rfl, (takes_readLen n.toNat_lt).reads rest enc.crc⟩
  · intro s hs
    rw [encoder_writeString enc hs]
    exact ⟨writeString s, rfl, (takes_readString hs).reads rest enc.crc⟩

theorem repeated_string_delimits : (List.replicate 40 (7 : UInt8)).length < 2 ^ 63 ∧
    ∃ bs, (Encoder.writeString ⟨[], 0⟩ (List.replicate 40 7)).out = bs ∧ readString ⟨bs ++ [1], 0⟩ =
        (.ok (List.replicate 40 7), ⟨[1], (Encoder.writeString ⟨[], 0⟩ (List.replicate 40 7)).crc⟩) := by
  have hs : (List.replicate 40 (7 : UInt8)).length < 2 ^ 63 := by decide
  exact ⟨hs, (lengths_and_strings_delimit ⟨[], 0⟩ [1]).2 _ hs⟩

lemma takes_readPair {a b : Bytes} (ha : a.length < 2 ^ 63) (hb : b.length < 2 ^ 63) :
    DecTakes readPair (writeString a ++ writeString b) (a, b) :=
  Reader.Takes.bind (takes_readString ha) ((takes_readString hb).map (.pure _))

lemma takes_readCounted {α : Type} {p : Dec α} {enc : α → Bytes} {as : List α} (hlen : as.length < 2 ^ 63)
    (h : ∀ a ∈ as, DecTakes p (enc a) a) : DecTakes (readCounted p) (writeLen as.length ++ as.flatMap enc) as :=
  Reader.Takes.bind (takes_readLen (by omega)) (Reader.takes_times h)

/-! ## Values -/

variable {E : Env} {now : Clock}

def isStream : Value → Bool
  | .stream _ => true
  | _ => false

/-- Lengths are those of slices in memory. -/
def Fits (E : Env) : Value → Prop
  | .str b => b.length < 2 ^ 63
  | .list items => items.length < 2 ^ 63 ∧ ∀ b ∈ items, b.length < 2 ^ 63
  | .set members => members.length < 2 ^ 63 ∧ ∀ b ∈ members, b.length < 2 ^ 63
  | .hash es => es.length < 2 ^ 63 ∧ ∀ e ∈ es, e.1.length < 2 ^ 63 ∧ e.2.length < 2 ^ 63
  | .zset es => es.length < 2 ^ 63 ∧ ∀ e ∈ es, e.1.length < 2 ^ 63 ∧ (E.formatFloat e.2).length < 2 ^ 63
  | .stream _ => True

/-- `ParseFloat` undoes `FormatFloat` on the scores. -/
def ScoresParse (E : Env) : Value → Prop
  | .zset es => ∀ e ∈ es, (E.parseFloat (E.formatFloat e.2)).1 = e.2
  | _ => True

/-- What a value is after saving and loading. -/
def reloaded (E : Env) : Value → Value
  | .set members => newSetFrom E members
  | .hash es => newHashFrom E es
  | .zset es => newZSetFrom E (es.mergeSort fun a b => !entryLess E b a)
  | v => v

lemma reloaded_same (h : v.WF) : (reloaded E v).Same v := by
  cases v with
  | str _ | list _ | stream _ => rfl
  | set ms => rw [reloaded, newSetFrom_eq h]
  | hash es => rw [reloaded, newHashFrom_eq h]
  | zset es =>
  have hperm := mergeSort_perm es fun a b => !entryLess E b a
  have hsame := newZSetFrom_same (E := E) ((hperm.map Prod.fst).nodup_iff.2 h)
  rw [reloaded]
  generalize newZSetFrom E (es.mergeSort fun a b => !entryLess E b a) = v at hsame
  cases v with
  | zset es' => exact List.Perm.trans hsame hperm
  | _ => cases hsame

variable {es : List (Bytes × Score)}

lemma takes_zsetPairs (hf : Fits E (.zset es)) : DecTakes (readCounted readPair)
      (writeLen es.length ++ es.flatMap fun e => writeString e.1 ++ writeString (E.formatFloat e.2))
      (es.map fun e => (e.1, E.formatFloat e.2)) := by
  have hpairs : DecTakes (readCounted readPair)
      (writeLen (es.map fun e => (e.1, E.formatFloat e.2)).length ++
        (es.map fun e => (e.1, E.formatFloat e.2)).flatMap fun p => writeString p.1 ++ writeString p.2)
      (es.map fun e => (e.1, E.formatFloat e.2)) := by
    refine takes_readCounted (by rw [length_map]; exact hf.1) fun p hp => ?_
    obtain ⟨e, he, rfl⟩ := mem_map.1 hp
    exact takes_readPair (hf.2 e he).1 (hf.2 e he).2
  rwa [length_map, flatMap_map] at hpairs

/-- The scores as they are read back. -/
def reparsed (E : Env) (es : List (Bytes × Score)) : List (Bytes × Score) :=
  (es.map fun e => (e.1, E.formatFloat e.2)).map fun p => (p.1, (E.parseFloat p.2).1)

lemma reparsed_eq (hs : ScoresParse E (.zset es)) : reparsed E es = es := by
  rw [reparsed, map_map]
  refine (map_congr_left fun e he => ?_).trans (map_id es)
  exact Prod.ext rfl (hs e he)

lemma takes_value (key : Bytes) (hv : isStream v = false) (hf : Fits E v) :
    ∃ op bs v', op.toNat < 242 ∧ writeValue E key v = op :: (writeString key ++ bs) ∧
      DecTakes (readValue E op) bs (some v') ∧ (ScoresParse E v → v' = reloaded E v) := by
  cases v with
  | str b => exact ⟨0, _, _, by decide, rfl, (takes_readString hf).map (.pure _), fun _ => rfl⟩
  | list items =>
    exact ⟨1, _, _, by decide, rfl,
      (takes_readCounted hf.1 fun b hb => takes_readString (hf.2 b hb)).map (.pure _), fun _ => rfl⟩
  | set ms =>
    exact ⟨2, _, _, by decide, rfl,
      (takes_readCounted hf.1 fun b hb => takes_readString (hf.2 b hb)).map (.pure _), fun _ => rfl⟩
  | zset es =>
    refine ⟨3, _, newZSetFrom E ((reparsed E es).mergeSort fun a b => !entryLess E b a), by decide, rfl,
      (takes_zsetPairs hf).map (.pure _), fun hs => ?_⟩
    rw [reparsed_eq hs, reloaded]
  | hash es =>
    exact ⟨4, _, _, by decide, rfl, (takes_readCounted hf.1 fun e he =>
      takes_readPair (hf.2 e he).1 (hf.2 e he).2).map (.pure _), fun _ => rfl⟩
  | stream _ => cases hv

/-! ## Entries -/

/-- The deadline still pending after an entry: a stream leaves its own, or the one before it. -/
def pendingAfter (pending : Int) (e : Entry) : Int :=
  if isStream e.val then if 0 < e.expireAt then e.expireAt else pending else 0

/-- What loading an entry does to the pending deadline and the keyspace. -/
def loadEntry (E : Env) (now : Clock) (s : Int × Keyspace) (e : Bytes × Entry) : Int × Keyspace :=
  (pendingAfter s.1 e.2,
    if isStream e.2.val then s.2
    else storeLoaded now s.2 e.1 (reloaded E e.2.val) (if 0 < e.2.expireAt then e.2.expireAt else s.1))

/-- The turns of the load loop that an entry takes. -/
def turns (e : Entry) : Nat := (if 0 < e.expireAt then 1 else 0) + if isStream e.val then 0 else 1

/-- What the format asks of an entry. -/
structure Writable (E : Env) (e : Bytes × Entry) : Prop where
  deadline : 0 ≤ e.2.expireAt ∧ e.2.expireAt < 2 ^ 63
  key : e.1.length < 2 ^ 63
  fits : Fits E e.2.val
  scores : ScoresParse E e.2.val

lemma loadLoop_turn {b : UInt8} {bs : Bytes} {x x' : Int} {db db' : Keyspace}
    (h : DecReads (loadRecord E now b x db) bs (some (x', db'))) (fuel : Nat) (rest : Bytes) (d : UInt64) :
    loadLoop E now (fuel + 1) x db ⟨b :: bs ++ rest, d⟩ = loadLoop E now fuel x' db' ⟨rest, crc64 d (b :: bs)⟩ := by
  have hb := (takes_readByte b).reads (bs ++ rest) d
  rw [singleton_append] at hb
  rw [loadLoop, cons_append, hb]
  simp only
  rw [h]
  rfl

lemma loadRecord_value {op : UInt8} (h : op.toNat < 242) (x : Int) (db : Keyspace) : loadRecord E now op x db = (do
      let key ← readString
      let robj ← readValue E op return some (0, robj.elim db fun v => storeLoaded now db key v x)) := by
  unfold loadRecord
  split <;> first | omega | rfl

lemma loadLoop_expire {n : Int} (hpos : 0 < n) (hlt : n < 2 ^ 63) (fuel : Nat) (x : Int) (db : Keyspace)
    (rest : Bytes) (d : UInt64) : loadLoop E now (fuel + 1) x db ⟨writeExpire n ++ rest, d⟩ =
      loadLoop E now fuel n db ⟨rest, crc64 d (writeExpire n)⟩ := by
  rw [writeExpire, if_pos hpos]
  refine loadLoop_turn ((takes_readFull (leBytes_length 8 _)).reads.map ?_) fuel rest d
  rw [leVal_leBytes (by omega), Int.toNat_of_nonneg hpos.le, wrap64_of_inInt64 (by unfold InInt64; omega)]
  exact .pure _

lemma loadLoop_value {key : Bytes} (hk : key.length < 2 ^ 63) (hv : isStream v = false) (hf : Fits E v)
    (hs : ScoresParse E v) (fuel : Nat) (x : Int) (db : Keyspace) (rest : Bytes) (d : UInt64) :
    loadLoop E now (fuel + 1) x db ⟨writeValue E key v ++ rest, d⟩ =
      loadLoop E now fuel 0 (storeLoaded now db key (reloaded E v) x) ⟨rest, crc64 d (writeValue E key v)⟩ := by
  obtain ⟨op, bs, v', hop, hw, hread, heq⟩ := takes_value key hv hf
  obtain rfl := heq hs
  rw [hw]
  refine loadLoop_turn ?_ fuel rest d
  rw [loadRecord_value hop]
  exact (takes_readString hk).reads.bind (hread.reads.map (.pure _))

lemma loadLoop_entry {e : Bytes × Entry} (h : Writable E e) (fuel : Nat) (s : Int × Keyspace) (rest : Bytes)
    (d : UInt64) : loadLoop E now (turns e.2 + fuel) s.1 s.2 ⟨writeEntry E e.1 e.2 ++ rest, d⟩ =
      loadLoop E now fuel (loadEntry E now s e).1 (loadEntry E now s e).2 ⟨rest, crc64 d (writeEntry E e.1 e.2)⟩ := by
  -- the deadline first, then the record with whatever deadline is pending
  have hexp : ∀ fuel rest, loadLoop E now ((if 0 < e.2.expireAt then 1 else 0) + fuel) s.1 s.2
      ⟨writeExpire e.2.expireAt ++ rest, d⟩ =
      loadLoop E now fuel (if 0 < e.2.expireAt then e.2.expireAt else s.1) s.2
        ⟨rest, crc64 d (writeExpire e.2.expireAt)⟩ := by
    intro fuel rest
    by_cases hpos : 0 < e.2.expireAt
    · rw [if_pos hpos, if_pos hpos, Nat.add_comm]
      exact loadLoop_expire hpos h.deadline.2 fuel _ _ rest d
    · rw [if_neg hpos, if_neg hpos, writeExpire, if_neg hpos, Nat.zero_add]
      rfl
  rw [writeEntry, turns, Nat.add_assoc, append_assoc, hexp, crc64_append]
  cases hv : isStream e.2.val with
  | true =>
    have hnone : writeValue E e.1 e.2.val = [] := by
      cases hval : e.2.val with
      | stream _ => rfl
      | _ => rw [hval] at hv; cases hv
    simp only [loadEntry, pendingAfter, hv, hnone, if_true, Nat.zero_add]
    rfl
  | false =>
    simp only [loadEntry, pendingAfter, hv, Bool.false_eq_true, if_false]
    rw [Nat.add_comm 1]
    exact loadLoop_value h.key hv h.fits h.scores fuel _ _ rest _

lemma loadLoop_entries (h : ∀ e ∈ entries, Writable E e) (fuel : Nat) (s : Int × Keyspace) (rest : Bytes) (d : UInt64) :
    loadLoop E now ((entries.map fun e => turns e.2).sum + fuel) s.1 s.2
        ⟨(entries.flatMap fun e => writeEntry E e.1 e.2) ++ rest, d⟩ =
      loadLoop E now fuel (entries.foldl (loadEntry E now) s).1 (entries.foldl (loadEntry E now) s).2
        ⟨rest, crc64 d (entries.flatMap fun e => writeEntry E e.1 e.2)⟩ := by
  induction entries generalizing s d with
  | nil => rw [map_nil, sum_nil, Nat.zero_add]; rfl
  | cons e es ih =>
    rw [map_cons, sum_cons, flatMap_cons, append_assoc, Nat.add_assoc,
      loadLoop_entry (h e mem_cons_self), ih fun e he => h e (mem_cons_of_mem _ he), crc64_append]
    rfl

lemma turns_le_length (key : Bytes) (e : Entry) : turns e ≤ (writeEntry E key e).length := by
  have hv : (if isStream e.val then 0 else 1) ≤ (writeValue E key e.val).length := by
    cases hval : e.val with
    | stream _ => exact Nat.zero_le _
    | _ => exact Nat.succ_le_succ (Nat.zero_le _)
  have hx : (if 0 < e.expireAt then 1 else 0) ≤ (writeExpire e.expireAt).length := by
    unfold writeExpire
    split_ifs
    · exact Nat.succ_le_succ (Nat.zero_le _)
    · exact le_rfl
  rw [turns, writeEntry, length_append]
  exact Nat.add_le_add hx hv

lemma sum_turns_le (entries : List (Bytes × Entry)) :
    (entries.map fun e => turns e.2).sum ≤ (entries.flatMap fun e => writeEntry E e.1 e.2).length := by
  rw [length_flatMap]
  exact sum_le_sum fun e _ => turns_le_length e.1 e.2

/-! ## Whole files -/

lemma loadLoop_aux {key val : Bytes} (hk : key.length < 2 ^ 63) (hv : val.length < 2 ^ 63) (fuel : Nat) (x : Int)
    (db : Keyspace) (rest : Bytes) (d : UInt64) : loadLoop E now (fuel + 1) x db ⟨writeAux key val ++ rest, d⟩ =
      loadLoop E now fuel x db ⟨rest, crc64 d (writeAux key val)⟩ :=
  loadLoop_turn ((takes_readString hk).reads.skip.bind ((takes_readString hv).reads.skip.map
    (.pure (some (x, db))))) fuel rest d

variable (savedAt : Option Clock)

lemma loadLoop_prelude (fuel : Nat) (x : Int) (db : Keyspace) (rest : Bytes) (d : UInt64) :
    loadLoop E now (fuel + savedAt.elim 0 fun _ => 4) x db ⟨writePrelude savedAt ++ rest, d⟩ =
      loadLoop E now fuel x db ⟨rest, crc64 d (writePrelude savedAt)⟩ := by
  cases savedAt with
  | none => rfl
  | some at_ =>
  have hctime : (formatInt (at_.ns / 10 ^ 9)).length < 2 ^ 63 :=
    (formatInt_length_le (by have := at_.bound; unfold InInt64; omega)).trans_lt (by decide)
  have hselect : DecReads (loadRecord E now 0xFE x db) (writeLen 0) (some (x, db)) :=
    (takes_readLen (by decide)).reads.skip.map (.pure _)
  show loadLoop E now (fuel + 4) x db _ = _
  simp only [writePrelude, writeStandardAuxFields, append_assoc, crc64_append]
  rw [loadLoop_aux (by decide) (by decide), loadLoop_aux (by decide) (by decide), loadLoop_aux (by decide) hctime]
  exact loadLoop_turn hselect fuel rest _

lemma prelude_length : (savedAt.elim 0 fun _ => 4) ≤ (writePrelude savedAt).length := by
  cases savedAt with
  | none => exact le_rfl
  | some at_ =>
    simp only [writePrelude, writeStandardAuxFields, writeAux, writeSelectDB, length_append, length_cons,
      Option.elim_some]
    omega

lemma takes_readHeader : DecTakes readHeader writeHeader 9 := by
  refine (takes_readFull (by decide)).map ?_
  have h5 : writeHeader.take 5 = ascii "REDIS" := by decide
  have hver : parseInt (writeHeader.drop 5) = some 9 := by decide
  exact .pure _

lemma loadLoop_footer (fuel : Nat) (x : Int) (db : Keyspace) (body : Bytes) :
    loadLoop E now (fuel + 1) x db ⟨0xFF :: leBytes 8 (crc64 0 (body ++ [0xFF])).toNat, crc64 0 body⟩ = (.ok (), db) := by
  have hb := (takes_readByte 0xFF).reads (leBytes 8 (crc64 0 (body ++ [0xFF])).toNat) (crc64 0 body)
  rw [singleton_append] at hb
  have hcrc : [0xFF].foldl crc64Step (crc64 0 body) = crc64 0 (body ++ [0xFF]) := (crc64_append ..).symm
  rw [loadLoop, hb, hcrc]
  generalize crc64 0 (body ++ [0xFF]) = crc
  have hfoot : readFooter ⟨leBytes 8 crc.toNat, crc⟩ = (.ok (), ⟨[], crc⟩) := by
    have hlen := leBytes_length 8 crc.toNat
    have hval : leVal (leBytes 8 crc.toNat) = crc.toNat := leVal_leBytes crc.toNat_lt
    rw [readFooter, if_pos (by simp), take_of_length_le hlen.le, drop_of_length_le hlen.le, hval]
    simp
  have hrec : loadRecord E now 0xFF x db ⟨leBytes 8 crc.toNat, crc⟩ = (.ok none, ⟨[], crc⟩) := by
    rw [show loadRecord E now 0xFF x db = readFooter >>= fun _ => pure none from rfl, Reader.bind_ok hfoot]
    rfl
  simp [hrec]

lemma load_writeSnapshot (h : ∀ e ∈ entries, Writable E e) (savedAt : Option Clock) (db : Keyspace) :
    load E now (writeSnapshot E savedAt entries) db = (.ok (), (entries.foldl (loadEntry E now) (0, db)).2) := by
  have hfuel := sum_turns_le (E := E) entries
  have hpre := prelude_length savedAt
  generalize hbody : writeHeader ++ (writePrelude savedAt ++ entries.flatMap fun e => writeEntry E e.1 e.2) = body
  have hend : ∀ fuel x db, loadLoop E now (fuel + 1) x db
      ⟨0xFF :: leBytes 8 (crc64 0 (body ++ [0xFF])).toNat, crc64 0 body⟩ = (.ok (), db) :=
    fun fuel x db => loadLoop_footer fuel x db body
  rw [writeSnapshot, hbody, writeFooter]
  generalize 0xFF :: leBytes 8 (crc64 0 (body ++ [0xFF])).toNat = foot at hend
  rw [load, ← hbody, append_assoc, takes_readHeader.reads]
  simp only
  -- a turn for each piece, and one for the footer
  obtain ⟨fuel, hf⟩ : ∃ fuel, (writePrelude savedAt ++ (entries.flatMap fun e => writeEntry E e.1 e.2) ++ foot).length + 1 =
      (entries.map fun e => turns e.2).sum + (fuel + 1) + savedAt.elim 0 fun _ => 4 := by
    rw [length_append, length_append]
    refine ⟨(writePrelude savedAt).length - (savedAt.elim 0 fun _ => 4) +
      ((entries.flatMap fun e => writeEntry E e.1 e.2).length - (entries.map fun e => turns e.2).sum) + foot.length, ?_⟩
    omega
  rw [hf, append_assoc, loadLoop_prelude, loadLoop_entries h _ (0, db)]
  have hcrc : crc64 (crc64 (crc64 0 writeHeader) (writePrelude savedAt))
      (entries.flatMap fun e => writeEntry E e.1 e.2) = crc64 0 body := by
    rw [← hbody, crc64_append, crc64_append]
  rw [← crc64, hcrc]
  exact hend fuel _ _

/-! ## Where each entry ends up -/

/-- The deadline a stream has left over for the entry after `entries`: that of the last stream with a
deadline, if only streams follow it. -/
def pendingDeadline (entries : List (Bytes × Entry)) : Int := entries.foldl (fun x e => pendingAfter x e.2) 0

/-- The deadline stored for a record read with `expireAt` pending. -/
def storedDeadline (now : Clock) (expireAt : Int) : Int :=
  if 0 < expireAt then (now.ns + wrap64 ((expireAt - now.ms) * 10 ^ 6)) / 10 ^ 6 else 0

lemma storeLoaded_lookup {y : Int} (hy : y = 0 ∨ now.ms < y) (db : Keyspace) (key : Bytes) (v : Value) :
    (storeLoaded now db key v y).lookup key = some ⟨v, storedDeadline now y⟩ := by
  unfold storeLoaded storedDeadline
  rcases hy with rfl | hy
  · exact Finmap.lookup_insert _
  rw [if_pos (by omega), if_pos (by omega)]
  rw [if_pos (by omega)]
  exact Finmap.lookup_insert _

variable {s : Int × Keyspace}

lemma loadEntry_frame {e : Bytes × Entry} (h : k ≠ e.1) : (loadEntry E now s e).2.lookup k = s.2.lookup k := by
  simp only [loadEntry, storeLoaded]
  split_ifs <;> first | rfl | exact Finmap.lookup_insert_of_ne _ h

lemma loadEntries_frame (h : ∀ e ∈ entries, k ≠ e.1)
    (s : Int × Keyspace) : (entries.foldl (loadEntry E now) s).2.lookup k = s.2.lookup k := by
  induction entries generalizing s with
  | nil => rfl
  | cons e es ih =>
    rw [foldl_cons, ih fun e he => h e (mem_cons_of_mem _ he), loadEntry_frame (h e mem_cons_self)]

lemma loadEntries_pending (entries : List (Bytes × Entry)) (s : Int × Keyspace) :
    (entries.foldl (loadEntry E now) s).1 = entries.foldl (fun x e => pendingAfter x e.2) s.1 := by
  induction entries generalizing s with
  | nil => rfl
  | cons e es ih => exact ih _

lemma pendingDeadline_live (h : ∀ e ∈ entries, e.2.expireAt = 0 ∨ now.ms < e.2.expireAt) :
    pendingDeadline entries = 0 ∨ now.ms < pendingDeadline entries := by
  have hstep : ∀ (es : List (Bytes × Entry)) (x : Int), (∀ e ∈ es, e.2.expireAt = 0 ∨ now.ms < e.2.expireAt) →
      (x = 0 ∨ now.ms < x) → es.foldl (fun x e => pendingAfter x e.2) x = 0 ∨
        now.ms < es.foldl (fun x e => pendingAfter x e.2) x := by
    intro es
    induction es with
    | nil => exact fun _ _ hx => hx
    | cons e es ih =>
    intro x hes hx
    refine ih _ (fun e he => hes e (mem_cons_of_mem _ he)) ?_
    have he := hes e mem_cons_self
    simp only [pendingAfter]
    split_ifs
    · exact he
    · exact hx
    · exact .inl rfl
  exact hstep entries 0 h (.inl rfl)

lemma loadEntries_lookup {pre post : List (Bytes × Entry)} {e : Bytes × Entry}
    (hnodup : ((pre ++ e :: post).map Prod.fst).Nodup)
    (hlive : ∀ e' ∈ pre ++ e :: post, e'.2.expireAt = 0 ∨ now.ms < e'.2.expireAt) (hv : isStream e.2.val = false)
    (db : Keyspace) : (((pre ++ e :: post).foldl (loadEntry E now) (0, db)).2).lookup e.1 = some ⟨reloaded E e.2.val,
        storedDeadline now (if 0 < e.2.expireAt then e.2.expireAt else pendingDeadline pre)⟩ := by
  have hpost : ∀ e' ∈ post, e.1 ≠ e'.1 := by
    intro e' he' heq
    rw [map_append, map_cons, nodup_append] at hnodup
    exact (nodup_cons.1 hnodup.2.1).1 (heq ▸ mem_map_of_mem he')
  rw [foldl_append, foldl_cons, loadEntries_frame hpost]
  simp only [loadEntry, hv, Bool.false_eq_true, if_false, loadEntries_pending]
  refine storeLoaded_lookup ?_ _ _ _
  split_ifs with hpos
  · exact hlive e (by simp)
  · exact pendingDeadline_live fun e' he' => hlive e' (mem_append_left _ he')

lemma loadEntries_only (h : ((entries.foldl (loadEntry E now) s).2.lookup k).isSome) :
    (s.2.lookup k).isSome ∨ ∃ e ∈ entries, e.1 = k ∧ isStream e.2.val = false := by
  induction entries generalizing s with
  | nil => exact .inl h
  | cons e es ih =>
  rcases ih h with hk | ⟨e', he', hk⟩
  · by_cases hek : k = e.1
    · cases hv : isStream e.2.val with
      | true => simp only [loadEntry, hv, if_true] at hk; exact .inl hk
      | false => exact .inr ⟨e, mem_cons_self, hek.symm, hv⟩
    · rw [loadEntry_frame hek] at hk
      exact .inl hk
  · exact .inr ⟨e', mem_cons_of_mem _ he', hk⟩

/-! ## Deadlines -/

/-- A deadline `d` whose distance overflows a duration so that none is stored. -/
def Cancels (now : Clock) (d : Int) : Prop :=
  (d * 10 ^ 6 + now.ns % 10 ^ 6) % 2 ^ 64 < 10 ^ 6 ∧ now.ns ≤ 2 ^ 63 + (d * 10 ^ 6 + now.ns % 10 ^ 6) % 2 ^ 64

lemma storedDeadline_self_iff {d : Int} (hpos : now.ms < d) :
    storedDeadline now d = d ↔ (d - now.ms) * 10 ^ 6 < 2 ^ 63 := by
  unfold storedDeadline wrap64 Clock.ms at *
  omega

lemma storedDeadline_zero_iff {d : Int} (hpos : now.ms < d) : storedDeadline now d = 0 ↔ Cancels now d := by
  unfold storedDeadline Cancels wrap64 Clock.ms at *
  -- both remainders drop the same multiple of `2 ^ 64`
  rcases lt_trichotomy ((d * 10 ^ 6 + now.ns % 10 ^ 6) / 2 ^ 64)
    (((d - (now.ns / 10 ^ 6 : Nat)) * 10 ^ 6 + 2 ^ 63) / 2 ^ 64) with h | h | h <;> omega

/-! ## The round trip -/

/-- The entries of a keyspace, in the order they are written. -/
structure Snapshot (E : Env) where
  entries : List (Bytes × Entry)
  nodup : (entries.map Prod.fst).Nodup
  writable : ∀ e ∈ entries, Writable E e
  wf : ∀ e ∈ entries, e.2.val.WF

/-- Every key but the streams has its value and its deadline, and there is no other key. -/
structure Restores (entries : List (Bytes × Entry)) (db : Keyspace) : Prop where
  kept : ∀ e ∈ entries, isStream e.2.val = false →
    ∃ e', db.lookup e.1 = some e' ∧ e'.val.Same e.2.val ∧ e'.expireAt = e.2.expireAt
  only : ∀ k, (db.lookup k).isSome → ∃ e ∈ entries, e.1 = k ∧ isStream e.2.val = false

/-- An entry's own deadline survives a load at `now` if it is within a duration's reach; that it has
none, if no stream has left a deadline behind or only one that cancels itself out. -/
def Survives (now : Clock) (own pending : Int) : Prop :=
  (0 < own → (own - now.ms) * 10 ^ 6 < 2 ^ 63) ∧ (own = 0 → pending = 0 ∨ Cancels now pending)

/-- Every deadline survives, each entry after those written before it. -/
def DeadlinesSurvive (now : Clock) (entries : List (Bytes × Entry)) : Prop :=
  ∀ pre e post, entries = pre ++ e :: post → isStream e.2.val = false →
    Survives now e.2.expireAt (pendingDeadline pre)

lemma storedDeadline_own_iff {own pending : Int} (hown : own = 0 ∨ now.ms < own)
    (hpending : pending = 0 ∨ now.ms < pending) :
    storedDeadline now (if 0 < own then own else pending) = own ↔ Survives now own pending := by
  rcases hown with rfl | hown
  · rw [if_neg (lt_irrefl 0)]
    rcases hpending with rfl | hpending
    · exact ⟨fun _ => ⟨fun h => absurd h (lt_irrefl 0), fun _ => .inl rfl⟩, fun _ => rfl⟩
    rw [storedDeadline_zero_iff hpending]
    exact ⟨fun h => ⟨fun h0 => absurd h0 (lt_irrefl 0), fun _ => .inr h⟩,
      fun h => (h.2 rfl).resolve_left (by omega)⟩
  · rw [if_pos (by omega), storedDeadline_self_iff hown]
    exact ⟨fun h => ⟨fun _ => h, fun h0 => by omega⟩, fun h => h.1 (by omega)⟩

/-- A snapshot loaded before any of its deadlines restores the keyspace exactly if every deadline
survives. -/
theorem load_snapshot_restores_iff (S : Snapshot E) (savedAt : Option Clock)
    (hlive : ∀ e ∈ S.entries, e.2.expireAt = 0 ∨ now.ms < e.2.expireAt) :
    (∃ db, load E now (writeSnapshot E savedAt S.entries) ∅ = (.ok (), db) ∧ Restores S.entries db) ↔
      DeadlinesSurvive now S.entries := by
  have hkept : ∀ pre e post, S.entries = pre ++ e :: post → isStream e.2.val = false →
      ((S.entries.foldl (loadEntry E now) (0, ∅)).2).lookup e.1 = some ⟨reloaded E e.2.val,
        storedDeadline now (if 0 < e.2.expireAt then e.2.expireAt else pendingDeadline pre)⟩ ∧
      (storedDeadline now (if 0 < e.2.expireAt then e.2.expireAt else pendingDeadline pre) = e.2.expireAt ↔
        Survives now e.2.expireAt (pendingDeadline pre)) := by
    intro pre e post heq hv
    have hmem : ∀ e' ∈ pre ++ e :: post, e'.2.expireAt = 0 ∨ now.ms < e'.2.expireAt := heq ▸ hlive
    refine ⟨heq ▸ loadEntries_lookup (heq ▸ S.nodup) hmem hv ∅, storedDeadline_own_iff (hmem e (by simp)) ?_⟩
    exact pendingDeadline_live fun e' he' => hmem e' (mem_append_left _ he')
  rw [load_writeSnapshot S.writable]
  constructor
  · rintro ⟨db, hload, hrestores⟩ pre e post heq hv
    obtain ⟨-, rfl⟩ := Prod.mk.inj hload
    obtain ⟨hlookup, hiff⟩ := hkept pre e post heq hv
    obtain ⟨e', he', -, hexp⟩ := hrestores.kept e (by rw [heq]; simp) hv
    rw [hlookup] at he'
    obtain rfl := Option.some.inj he'
    exact hiff.1 hexp
  · intro hsurvive
    refine ⟨_, rfl, fun e he hv => ?_, fun k hk => ?_⟩
    · obtain ⟨pre, post, heq⟩ := append_of_mem he
      obtain ⟨hlookup, hiff⟩ := hkept pre e post heq hv
      exact ⟨_, hlookup, reloaded_same (S.wf e he), hiff.2 (hsurvive pre e post heq hv)⟩
    · refine (loadEntries_only hk).resolve_left ?_
      rw [Finmap.lookup_empty]
      exact Bool.false_ne_true

def twoStrings : Snapshot Env.bits where
  entries := [([97], ⟨.str [1], 1000⟩), ([98], ⟨.str [2], 0⟩)]
  nodup := by decide
  writable := by
    simp only [forall_mem_cons, not_mem_nil, false_implies, implies_true, and_true]
    exact ⟨⟨by decide, by decide, show 1 < 2 ^ 63 by decide, trivial⟩,
      ⟨by decide, by decide, show 1 < 2 ^ 63 by decide, trivial⟩⟩
  wf := by
    simp only [forall_mem_cons, not_mem_nil, false_implies, implies_true, and_true]
    exact ⟨trivial, trivial⟩

theorem load_twoStrings_restores :
    ∃ db, load Env.bits ⟨0, by decide⟩ (writeSnapshot Env.bits none twoStrings.entries) ∅ = (.ok (), db) ∧
      Restores twoStrings.entries db := by
  refine (load_snapshot_restores_iff twoStrings none (by decide)).2 fun pre e post heq _ => ?_
  obtain _ | ⟨a, _ | ⟨b, pre⟩⟩ := pre
  · obtain ⟨rfl, -⟩ := List.cons.inj heq
    exact ⟨fun _ => by decide, fun _ => .inl rfl⟩
  · obtain ⟨rfl, htail⟩ := List.cons.inj heq
    obtain ⟨rfl, -⟩ := List.cons.inj htail
    exact ⟨fun h => absurd h (by decide), fun _ => .inl rfl⟩
  · simp [twoStrings] at heq

def streamThenString : Snapshot Env.bits where
  entries := [([115], ⟨.stream Stream.newStream, 1000⟩), ([107], ⟨.str [1], 0⟩)]
  nodup := by decide
  writable := by
    simp only [forall_mem_cons, not_mem_nil, false_implies, implies_true, and_true]
    exact ⟨⟨by decide, by decide, trivial, trivial⟩, ⟨by decide, by decide, show 1 < 2 ^ 63 by decide, trivial⟩⟩
  wf := by
    simp only [forall_mem_cons, not_mem_nil, false_implies, implies_true, and_true]
    exact ⟨trivial, trivial⟩

/-- The string takes the stream's deadline. -/
theorem load_streamThenString_fails :
    (∀ e ∈ streamThenString.entries, e.2.expireAt = 0 ∨ ((⟨0, by decide⟩ : Clock).ms : Int) < e.2.expireAt) ∧
    ¬ ∃ db, load Env.bits ⟨0, by decide⟩ (writeSnapshot Env.bits none streamThenString.entries) ∅ = (.ok (), db) ∧
      Restores streamThenString.entries db := by
  refine ⟨by decide, ?_⟩
  rintro ⟨db, hload, hrestores⟩
  rw [load_writeSnapshot streamThenString.writable] at hload
  obtain ⟨-, rfl⟩ := Prod.mk.inj hload
  obtain ⟨e', he', -, hexp⟩ := hrestores.kept ([107], ⟨.str [1], 0⟩) (by decide) rfl
  have hlookup := @loadEntries_lookup Env.bits ⟨0, by decide⟩ [([115], ⟨.stream Stream.newStream, 1000⟩)] []
    ([107], ⟨.str [1], 0⟩) streamThenString.nodup (by decide) rfl ∅
  obtain rfl := Option.some.inj (he'.symm.trans hlookup)
  revert hexp
  decide

end Gopherdis.Rdb
