/-
The commands a rewritten append-only file consists of, and what replaying them builds: for every
value one command, for a stream one `XADD` per entry, and a `PEXPIREAT` for the deadline. An empty
collection leaves nothing behind, and a rebuilt stream has the ID of its last entry as its last ID.
-/
import Gopherdis.Aof.Load
import Gopherdis.Command.Collections
import Gopherdis.Stream.Append

namespace Gopherdis.Aof

open Lib Codec Object Store Gopherdis.Stream Command List Becomes

/-! ## What is written -/

variable (E : Env)

/-- The commands `writeEntryToRESP` writes for a value. -/
def rewriteValue (key : Bytes) : Value → List Argv
  | .str b => [[ascii "SET", key, b]]
  | .list items => [ascii "RPUSH" :: key :: items]
  | .hash es => if es = [] then [] else [ascii "HSET" :: key :: unpair es]
  | .set ms => if ms = [] then [] else [ascii "SADD" :: key :: ms]
  | .zset es => if es = [] then [] else [ascii "ZADD" :: key :: unpair (es.map fun e => (E.formatFloat e.2, e.1))]
  | .stream s => s.entries.map fun e => ascii "XADD" :: key :: e.id.format :: e.pairs

def rewriteDeadline (key : Bytes) (expireAt : Int) : List Argv :=
  if 0 < expireAt then [[ascii "PEXPIREAT", key, formatInt expireAt]] else []

/-- `writeEntryToRESP`, before the commands are encoded. -/
def rewriteEntry (e : Bytes × Entry) : List Argv :=
  rewriteValue E e.1 e.2.val ++ rewriteDeadline e.1 e.2.expireAt

def rewriteCommands (entries : List (Bytes × Entry)) : List Argv := entries.flatMap (rewriteEntry E)

/-! ## Replaying one command -/

section
variable (now : Clock) {db : Keyspace} {key : Bytes} {v : Value}

lemma setKeepTTL_becomes {e : Option Entry} (h : db.lookup key = e) :
    Becomes db key (db.setKeepTTL key v) (some ⟨v, (e.map Entry.expireAt).getD 0⟩) :=
  h ▸ insert db key _

lemma replay_set (b : Bytes) (h : db.lookup key = none) :
    Becomes db key (replayOne E now baseTable db [ascii "SET", key, b]) (some ⟨.str b, 0⟩) := by
  rw [replayOne_eq rfl rfl (cons_ne_nil _ _) rfl]
  have hget : db.get (replayContext E now).now key = (db, none) := get_of_none h
  simp only [setCommand, getD_cons_succ, getD_cons_zero, hget]
  exact insert db key ⟨.str b, 0⟩

lemma replay_rpush {items : List Bytes} (hne : items ≠ []) (h : db.lookup key = none) :
    Becomes db key (replayOne E now baseTable db (ascii "RPUSH" :: key :: items)) (some ⟨.list items, 0⟩) := by
  have ha : rpushCmd.arityOk (ascii "RPUSH" :: key :: items).length = true := by
    have := length_pos_iff.2 hne
    simp [Command.arityOk, rpushCmd, writeCmd]
    omega
  rw [replayOne_eq rfl ha (cons_ne_nil _ _) rfl]
  simp only [rpushCommand, getOrCreate, getD_cons_succ, getD_cons_zero, get_of_none h]
  exact setKeepTTL_becomes h

lemma replay_hset {es : List (Bytes × Bytes)} (hne : es ≠ []) (hwf : (es.map Prod.fst).Nodup)
    (h : db.lookup key = none) :
    Becomes db key (replayOne E now baseTable db (ascii "HSET" :: key :: unpair es)) (some ⟨.hash es, 0⟩) := by
  have hpos := length_pos_iff.2 hne
  have ha : hsetCmd.arityOk (ascii "HSET" :: key :: unpair es).length = true := by
    simp [Command.arityOk, hsetCmd, writeCmd]
    omega
  rw [replayOne_eq rfl ha (cons_ne_nil _ _) rfl]
  have heven : ¬ (unpair es).length % 2 ≠ 0 := by rw [unpair_length]; omega
  have hall : es.foldl (fun es e => hashSet es e.1 e.2) [] = [] ++ es := hashSet_all (by simpa using hwf)
  simp only [hsetCommand, getOrCreate, getD_cons_succ, getD_cons_zero, get_of_none h, drop_succ_cons,
    drop_zero, if_neg heven, pairUp_unpair, hall, nil_append]
  exact setKeepTTL_becomes h

lemma replay_sadd {ms : List Bytes} (hne : ms ≠ []) (hwf : ms.Nodup) (h : db.lookup key = none) :
    Becomes db key (replayOne E now baseTable db (ascii "SADD" :: key :: ms)) (some ⟨.set ms, 0⟩) := by
  have ha : saddCmd.arityOk (ascii "SADD" :: key :: ms).length = true := by
    have := length_pos_iff.2 hne
    simp [Command.arityOk, saddCmd, writeCmd]
    omega
  rw [replayOne_eq rfl ha (cons_ne_nil _ _) rfl]
  have hall : ms.foldl setAdd [] = [] ++ ms := setAdd_all (by simpa using hwf)
  simp only [saddCommand, getOrCreate, getD_cons_succ, getD_cons_zero, get_of_none h, drop_succ_cons,
    drop_zero, hall, nil_append]
  exact setKeepTTL_becomes h

/-! ### Sorted sets -/

/-- The score is read back from its text, which is a number and no option of `ZADD`. -/
structure PrintedScore (score : Score) : Prop where
  read : E.parseFloat (E.formatFloat score) = (score, true)
  number : E.isNaN score = false
  plain : zaddOptions [E.formatFloat score] {} = ({}, [E.formatFloat score])

variable {E}

lemma zaddOptions_plain {word : Bytes} (h : zaddOptions [word] {} = ({}, [word])) (rest : List Bytes) :
    zaddOptions (word :: rest) {} = ({}, word :: rest) := by
  unfold zaddOptions at h ⊢
  simp only at h ⊢
  split_ifs at h ⊢ <;> first | rfl | simp [zaddOptions] at h

variable {es : List (Bytes × Score)}

lemma zaddScores_printed (h : ∀ e ∈ es, PrintedScore E e.2) :
    zaddScores E (es.map fun e => (E.formatFloat e.2, e.1)) = some es := by
  induction es with
  | nil => rfl
  | cons e es ih =>
    rw [forall_mem_cons] at h
    simp [zaddScores, h.1.read, h.1.number, ih h.2]

lemma zaddOne_plain (s : ZaddState) (e : Bytes × Score) : (zaddOne E {} s e).es = zAdd E s.es e.1 e.2 := by
  have hskip : ({} : ZaddOpts).skips E (zScore s.es e.1) e.2 = false := by
    cases zScore s.es e.1 <;> rfl
  simp [zaddOne, hskip]

lemma zaddOne_all (es : List (Bytes × Score)) (s : ZaddState) :
    (es.foldl (zaddOne E {}) s).es = es.foldl (fun es e => zAdd E es e.1 e.2) s.es := by
  induction es generalizing s with
  | nil => rfl
  | cons e es ih => rw [foldl_cons, foldl_cons, ih, zaddOne_plain]

lemma replay_zadd (hne : es ≠ []) (hwf : (es.map Prod.fst).Nodup)
    (hscores : ∀ e ∈ es, PrintedScore E e.2) (h : db.lookup key = none) : Becomes db key (replayOne E now baseTable db
        (ascii "ZADD" :: key :: unpair (es.map fun e => (E.formatFloat e.2, e.1))))
      (some ⟨.zset (es.foldl (fun es e => zAdd E es e.1 e.2) []), 0⟩) := by
  have hpos := length_pos_iff.2 hne
  have ha : zaddCmd.arityOk
      (ascii "ZADD" :: key :: unpair (es.map fun e => (E.formatFloat e.2, e.1))).length = true := by
    simp [Command.arityOk, zaddCmd, writeCmd]
    omega
  rw [replayOne_eq rfl ha (cons_ne_nil _ _) rfl]
  have hopts : zaddOptions (unpair (es.map fun e => (E.formatFloat e.2, e.1))) {} =
      ({}, unpair (es.map fun e => (E.formatFloat e.2, e.1))) := by
    obtain ⟨e, es', rfl⟩ := exists_cons_of_ne_nil hne
    exact zaddOptions_plain (hscores e (mem_cons_self ..)).plain _
  have hpairs : ¬ (unpair (es.map fun e => (E.formatFloat e.2, e.1)) = [] ∨
      (unpair (es.map fun e => (E.formatFloat e.2, e.1))).length % 2 ≠ 0) := by
    rw [← length_eq_zero_iff, unpair_length, length_map]
    omega
  have hall : (es.foldl (fun es e => zAdd E es e.1 e.2) []) ≠ [] := by
    intro hnil
    have hperm := @zAdd_all E [] es (by simpa using hwf)
    rw [hnil, nil_append] at hperm
    exact hne hperm.symm.eq_nil
  have hscores' := zaddScores_printed hscores
  simp only [zaddCommand, getD_cons_succ, getD_cons_zero, drop_succ_cons, drop_zero, hopts,
    Bool.false_eq_true, false_and, and_false, or_self, if_false, hpairs, pairUp_unpair, replayContext, hscores',
    getOrCreate, get_of_none h, zaddOne_all, if_neg hall]
  exact setKeepTTL_becomes h

/-! ### Streams -/

lemma xaddOptions_format (id : StreamID) (rest : List Bytes) :
    xaddOptions now (id.format :: rest) {} = .ok ({}, id.format :: rest) := by
  obtain ⟨d, ds, hd⟩ := exists_cons_of_ne_nil (formatNat_ne_nil id.ms.toNat)
  have hdigit : isDigit d = true := formatNat_isDigit id.ms.toNat d (by rw [hd]; exact mem_cons_self ..)
  have hupper : toUpper id.format = d :: toUpper (ds ++ 45 :: formatNat id.seq.toNat) := by
    rw [StreamID.format, hd, cons_append, toUpper_low (isDigit_le hdigit).2]
  have hne : ∀ w : Bytes, w.head?.any isDigit = false → toUpper id.format ≠ w := by
    rintro w hw rfl
    rw [hupper, head?_cons, Option.any_some, hdigit] at hw
    cases hw
  unfold xaddOptions
  rw [if_neg (hne _ rfl), if_neg]
  rintro (h | h)
  all_goals exact hne _ rfl h

/-- The stream at a key, a new one where there is none. -/
def StreamAt (db : Keyspace) (key : Bytes) (s : Stream) : Prop :=
  (db.lookup key = none ∧ s = newStream) ∨ db.lookup key = some ⟨.stream s, 0⟩

lemma replay_xadd {s : Stream} (hs : StreamAt db key s) {id : StreamID} (hid : 0 < s.length → s.lastID.lt id = true)
    {pairs : List Bytes} (hne : pairs ≠ []) (heven : pairs.length % 2 = 0) :
    Becomes db key (replayOne E now baseTable db (ascii "XADD" :: key :: id.format :: pairs))
      (some ⟨.stream (s.appended id pairs), 0⟩) := by
  have hpos := length_pos_iff.2 hne
  have ha : xaddCmd.arityOk (ascii "XADD" :: key :: id.format :: pairs).length = true := by
    simp [Command.arityOk, xaddCmd, writeCmd]
    omega
  rw [replayOne_eq rfl ha (cons_ne_nil _ _) rfl]
  have hfields : ¬ (pairs = [] ∨ pairs.length % 2 ≠ 0) := not_or.2 ⟨hne, not_not.2 heven⟩
  have hadd : xaddStream {} id pairs s = some (s.appended id pairs) := by
    rw [xaddStream, Stream.addRaw_eq, if_neg (by rintro ⟨hlen, hlt⟩; exact hlt (hid hlen))]
    rfl
  have hto : ∀ db, xaddTo now {} key id.format pairs db s =
      ⟨db.setKeepTTL key (.stream (s.appended id pairs)), bulkString id.format, none⟩ := by
    intro db
    simp [xaddTo, parseID_format, hadd]
  obtain ⟨hnone, rfl⟩ | hsome := hs
  · simp only [xaddCommand, getD_cons_succ, getD_cons_zero, drop_succ_cons, drop_zero,
      replayContext, xaddOptions_format, if_neg hfields, get_of_none hnone, Bool.false_eq_true, if_false, hto]
    have hset := insert db key ⟨.stream newStream, 0⟩
    exact hset.trans (setKeepTTL_becomes hset.at_key)
  · simp only [xaddCommand, getD_cons_succ, getD_cons_zero, drop_succ_cons, drop_zero,
      replayContext, xaddOptions_format, if_neg hfields, get_of_live (live_of_lookup hsome rfl), hto]
    exact setKeepTTL_becomes hsome

lemma replay_xadds : ∀ {es : List StreamEntry} {db : Keyspace} {s : Stream}, StreamAt db key s →
    (0 < s.length → ∀ e ∈ es, s.lastID.lt e.id = true) → es.Pairwise (fun a b => a.id.lt b.id = true) →
    (∀ e ∈ es, e.pairs ≠ []) → es ≠ [] → Becomes db key
      ((es.map fun e => ascii "XADD" :: key :: e.id.format :: e.pairs).foldl (replayOne E now baseTable) db)
      (some ⟨.stream (s.addAll es), 0⟩)
  | [], _, _, _, _, _, _, hnil => absurd rfl hnil
  | e :: es, db, s, hs, hlast, hord, hpairs, _ => by
    rw [pairwise_cons] at hord
    rw [forall_mem_cons] at hpairs
    have heven : e.pairs.length % 2 = 0 := by rw [StreamEntry.pairs, unpair_length]; omega
    have hone := replay_xadd (E := E) now hs (fun h => hlast h e (mem_cons_self ..)) hpairs.1 heven
    by_cases hes : es = []
    · rw [hes]; exact hone
    · exact hone.trans (replay_xadds (.inr hone.at_key) (fun _ => hord.1) hord.2 hpairs.2 hes)

/-! ### Deadlines -/

lemma replay_pexpireat {n : Int} (hn : InInt64 n) (h : db.lookup key = some ⟨v, 0⟩) :
    Becomes db key (replayOne E now baseTable db [ascii "PEXPIREAT", key, formatInt n]) (some ⟨v, n⟩) := by
  have hexp : db.isExpired now key = false := by simp [Keyspace.isExpired, h, Entry.expired]
  have hhas : db.has now key = true := by simp [Keyspace.has, hexp, h]
  rw [replayOne_pexpireat E now db key hn, if_pos hhas]
  simp only [Keyspace.setExpireAt, hexp, h]
  exact insert db key ⟨v, n⟩

lemma replay_pexpireat_none {n : Int} (hn : InInt64 n) (h : db.lookup key = none) :
    replayOne E now baseTable db [ascii "PEXPIREAT", key, formatInt n] = db := by
  have hhas : ¬ db.has now key = true := by simp [Keyspace.has, h]
  rw [replayOne_pexpireat E now db key hn, if_neg hhas]

/-! ## Replaying an entry -/

variable (E) in
/-- The value the replay builds, if any. -/
def rebuilt : Value → Option Value
  | .str b => some (.str b)
  | .list items => if items = [] then none else some (.list items)
  | .hash es => if es = [] then none else some (.hash es)
  | .set ms => if ms = [] then none else some (.set ms)
  | .zset es => if es = [] then none else some (.zset (es.foldl (fun es e => zAdd E es e.1 e.2) []))
  | .stream s => if s.entries = [] then none else some (.stream (newStream.addAll s.entries))

variable (E) in
/-- A value as the commands leave it, with scores that survive their printing. -/
def Sound : Value → Prop
  | .zset es => (es.map Prod.fst).Nodup ∧ ∀ e ∈ es, PrintedScore E e.2
  | .stream s => s.WF
  | v => v.WF

lemma rewriteValue_replayed (hv : Sound E v) (h : db.lookup key = none) :
    Becomes db key ((rewriteValue E key v).foldl (replayOne E now baseTable) db) ((rebuilt E v).map (⟨·, 0⟩)) := by
  have hsame : Becomes db key db none := keep h
  cases v with
  | str b => exact replay_set E now b h
  | list items =>
    rw [rebuilt]
    split_ifs with hnil
    · -- `RPUSH` without an element is refused
      rw [hnil]
      show Becomes db key (replayOne E now baseTable db [ascii "RPUSH", key]) none
      exact hsame
    · exact replay_rpush E now hnil h
  | hash es =>
    rw [rebuilt, rewriteValue]
    split_ifs with hnil
    · exact hsame
    · exact replay_hset E now hnil hv h
  | set ms =>
    rw [rebuilt, rewriteValue]
    split_ifs with hnil
    · exact hsame
    · exact replay_sadd E now hnil hv h
  | zset es =>
    rw [rebuilt, rewriteValue]
    split_ifs with hnil
    · exact hsame
    · exact replay_zadd now hnil hv.1 hv.2 h
  | stream s =>
    have hwf : s.WF := hv
    rw [rebuilt, rewriteValue]
    split_ifs with hnil
    · rw [hnil]; exact hsame
    · exact replay_xadds now (.inl ⟨h, rfl⟩) (fun hlen => absurd hlen (lt_irrefl 0)) hwf.entries_ordered
        hwf.pairs_ne_nil hnil

lemma rewriteEntry_replayed {e : Bytes × Entry} (hv : Sound E e.2.val) (hint : InInt64 e.2.expireAt)
    (hdeadline : 0 ≤ e.2.expireAt) (h : db.lookup e.1 = none) :
    Becomes db e.1 ((rewriteEntry E e).foldl (replayOne E now baseTable) db)
      ((rebuilt E e.2.val).map (⟨·, e.2.expireAt⟩)) := by
  have hval := rewriteValue_replayed now hv h
  rw [rewriteEntry, foldl_append, rewriteDeadline]
  split_ifs with hpos
  · rw [foldl_cons, foldl_nil]
    cases hr : rebuilt E e.2.val with
    | none =>
      rw [hr] at hval
      rw [replay_pexpireat_none now hint hval.at_key]
      exact hval
    | some v =>
      rw [hr] at hval
      exact hval.trans (replay_pexpireat now hint hval.at_key)
  · rw [show e.2.expireAt = 0 by omega]
    exact hval

lemma rewriteCommands_replayed : ∀ {entries : List (Bytes × Entry)} {db : Keyspace},
    (entries.map Prod.fst).Nodup → (∀ e ∈ entries, Sound E e.2.val ∧ InInt64 e.2.expireAt ∧ 0 ≤ e.2.expireAt) →
    (∀ e ∈ entries, db.lookup e.1 = none) →
    (∀ e ∈ entries, ((rewriteCommands E entries).foldl (replayOne E now baseTable) db).lookup e.1 =
      (rebuilt E e.2.val).map (⟨·, e.2.expireAt⟩)) ∧ ∀ k, k ∉ entries.map Prod.fst →
      ((rewriteCommands E entries).foldl (replayOne E now baseTable) db).lookup k = db.lookup k
  | [], _, _, _, _ => ⟨by simp, fun _ _ => rfl⟩
  | e :: entries, db, hnodup, hsound, hnone => by
    rw [map_cons, nodup_cons] at hnodup
    rw [forall_mem_cons] at hsound hnone
    have hone := rewriteEntry_replayed now hsound.1.1 hsound.1.2.1 hsound.1.2.2 hnone.1
    have hother : ∀ e' ∈ entries, e'.1 ≠ e.1 := by
      rintro e' he' heq
      exact hnodup.1 (heq ▸ mem_map_of_mem he')
    obtain ⟨hmem, hrest⟩ := rewriteCommands_replayed hnodup.2 hsound.2
      (fun e' he' => (hone.frame _ (hother e' he')).trans (hnone.2 e' he'))
    rw [rewriteCommands, flatMap_cons, foldl_append]
    refine ⟨forall_mem_cons.2 ⟨(hrest e.1 hnodup.1).trans hone.at_key, hmem⟩, fun k hk => ?_⟩
    rw [map_cons, mem_cons, not_or] at hk
    exact (hrest k hk.2).trans (hone.frame k hk.1)

end

end Gopherdis.Aof
