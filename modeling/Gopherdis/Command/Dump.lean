/-
`DUMP`, and `RESTORE` of what it replies. The payload is a snapshot of the one entry, its deadline
included; `RESTORE` loads it into an empty keyspace, and a deadline that has passed by then makes the
loader drop the only entry there is.
-/
import Gopherdis.Command.Expire
import Gopherdis.Rdb.RoundTrip

namespace Gopherdis.Command

open Lib Codec Object Store List Finmap Rdb

variable {key : Bytes} {e : Entry}

/-! ## DUMP -/

/-- A snapshot with the version and the checksum that `RESTORE` looks at. -/
def dumpPayload (body : Bytes) : Bytes :=
  let out := body ++ leBytes 2 dumpVersion
  out ++ leBytes 8 (Rdb.crc64 0 out).toNat

def dumpCommand (ctx : Context) (argv : Argv) (db : Keyspace) : Outcome :=
  let key := argv.getD 1 []
  match db.live key ctx.now.ms with
  | none => ⟨db, nullBulkString, none⟩
  | some e => ⟨db, bulkString (dumpPayload (Rdb.writeSnapshot ctx.E none [(key, e)])), none⟩

lemma dumpBody_dumpPayload (body : Bytes) : dumpBody (dumpPayload body) = some body := by
  have hver := leBytes_length 2 dumpVersion
  have hcrc := leBytes_length 8 (crc64 0 (body ++ leBytes 2 dumpVersion)).toNat
  have hval : leVal (leBytes 8 (crc64 0 (body ++ leBytes 2 dumpVersion)).toNat) =
      (crc64 0 (body ++ leBytes 2 dumpVersion)).toNat := leVal_leBytes (UInt64.toNat_lt _)
  unfold dumpBody dumpPayload
  simp only
  generalize leBytes 8 (crc64 0 (body ++ leBytes 2 dumpVersion)).toNat = crc at hcrc hval ⊢
  have hlen : (body ++ leBytes 2 dumpVersion ++ crc).length = body.length + 2 + dumpFooterLen - 2 := by
    rw [length_append, length_append, hver, hcrc, dumpFooterLen]
    omega
  have hoff : (body ++ leBytes 2 dumpVersion ++ crc).length - dumpFooterLen = body.length := by
    omega
  have hout : (body ++ leBytes 2 dumpVersion).length = body.length + 2 := by rw [length_append, hver]
  rw [hoff, if_neg (by rw [hlen, dumpFooterLen]; omega), if_pos]
  · rw [append_assoc, take_left]
  · rw [append_assoc, drop_left, take_left' hver, ← append_assoc, take_left' hout,
      drop_left' hout]
    exact ⟨by decide, hval.symm⟩

/-! ## The scratch keyspace -/

section
variable {E : Env} {now : Clock} {body : Bytes}

lemma restoredValue_of_live {scratch : Keyspace}
    (hload : load E now body ∅ = (.ok (), scratch)) (hlive : scratch.live key now.ms = some e)
    (honly : ∀ k, (scratch.live k now.ms).isSome → k = key) : restoredValue E now body = some e.val := by
  have hkeys : scratch.keysAll now = {key} := by
    ext k
    rw [mem_keysAll, Finset.mem_singleton]
    exact ⟨honly k, by rintro rfl; rw [hlive]; rfl⟩
  have hcard : (scratch.keysAll now).card = 1 := by rw [hkeys]; rfl
  have honly : onlyMember hcard = key := Finset.mem_singleton.1 (hkeys ▸ Finset.choose_mem ..)
  unfold restoredValue
  rw [hload]
  simp only
  rw [dif_pos hcard, honly, get_of_live hlive]

lemma restoredValue_of_dead {scratch : Keyspace} (hload : load E now body ∅ = (.ok (), scratch))
    (hdead : ∀ k, scratch.live k now.ms = none) : restoredValue E now body = none := by
  have hkeys : scratch.keysAll now = ∅ := by
    ext k
    rw [mem_keysAll, hdead k]
    simp
  unfold restoredValue
  rw [hload]
  simp only
  rw [dif_neg (by rw [hkeys]; simp)]

/-- The deadline of a payload that is loaded at `now` with its entry: there is none, or it has not
passed, and neither has what the loader stores for it. -/
def Reloads (now : Clock) (expireAt : Int) : Prop :=
  expireAt = 0 ∨ now.ms < expireAt ∧
    (Rdb.storedDeadline now expireAt = 0 ∨ now.ms < Rdb.storedDeadline now expireAt)

lemma restoredValue_dump (now : Clock) (hw : Rdb.Writable E (key, e)) (hv : isStream e.val = false) :
    restoredValue E now (writeSnapshot E none [(key, e)]) = some (reloaded E e.val) ∧ Reloads now e.expireAt ∨
      restoredValue E now (writeSnapshot E none [(key, e)]) = none ∧ ¬ Reloads now e.expireAt := by
  have hload : load E now _ ∅ = _ := load_writeSnapshot (forall_mem_singleton.2 hw) none ∅
  simp only [foldl_cons, foldl_nil, loadEntry, hv, Bool.false_eq_true, if_false] at hload
  obtain ⟨hnonneg, -⟩ : 0 ≤ e.expireAt ∧ e.expireAt < 2 ^ 63 := hw.deadline
  have hdeadline : (if 0 < e.expireAt then e.expireAt else 0) = e.expireAt := by split_ifs <;> omega
  rw [hdeadline] at hload
  generalize reloaded E e.val = v at hload ⊢
  have hframe : ∀ k, k ≠ key → (storeLoaded now ∅ key v e.expireAt).lookup k = none := by
    intro k hk
    unfold storeLoaded
    simp only
    split_ifs
    · exact lookup_insert_of_ne _ hk
    · exact lookup_empty k
    · exact lookup_insert_of_ne _ hk
  by_cases hpast : e.expireAt = 0 ∨ now.ms < e.expireAt
  · -- the entry is stored; whether it is live is up to the deadline stored with it
    have hlookup := storeLoaded_lookup hpast ∅ key v
    cases hx : (Entry.mk v (storedDeadline now e.expireAt)).expired now.ms with
    | false =>
      refine .inl ⟨restoredValue_of_live hload (live_of_lookup hlookup hx) ?_, ?_⟩
      · intro k hk
        by_contra hne
        rw [live_eq, hframe k hne] at hk
        cases hk
      · refine hpast.imp_right fun hlt => ⟨hlt, ?_⟩
        simp only [Entry.expired, Bool.and_eq_false_iff, decide_eq_false_iff_not] at hx
        omega
    | true =>
    have hx' : storedDeadline now e.expireAt ≠ 0 ∧ storedDeadline now e.expireAt ≤ now.ms := by
      simpa [Entry.expired] using hx
    refine .inr ⟨restoredValue_of_dead hload fun k => ?_, ?_⟩
    · by_cases hk : k = key
      · subst hk
        rw [live_eq, hlookup, liveEntry_some, hx]
        rfl
      · rw [live_eq, hframe k hk]
        rfl
    · rintro (h0 | ⟨-, hlive⟩)
      · exact hx'.1 (by rw [h0]; rfl)
      · omega
  · refine .inr ⟨restoredValue_of_dead hload fun k => ?_, ?_⟩
    · unfold storeLoaded
      rw [if_pos (by omega)]
      rw [if_neg (by omega)]
      rfl
    · rintro (h0 | ⟨hlt, -⟩)
      · exact hpast (.inl h0)
      · exact hpast (.inr hlt)

end

/-! ## The round trip -/

/-- A `RESTORE newkey 0 payload` that brings back `v`. -/
def Restored (ctx : Context) (name newkey payload : Bytes) (db : Keyspace) (v : Value) : Prop :=
  (restoreCommand ctx [name, newkey, ascii "0", payload] db).reply = ok ∧
    ∃ v', (restoreCommand ctx [name, newkey, ascii "0", payload] db).db.lookup newkey = some ⟨v', 0⟩ ∧ v'.Same v

lemma dumpCommand_live {ctx : Context} {db : Keyspace} (name : Bytes) (hlive : db.live key ctx.now.ms = some e) :
    (dumpCommand ctx [name, key] db).reply = bulkString (dumpPayload (writeSnapshot ctx.E none [(key, e)])) := by
  simp [dumpCommand, hlive]

lemma restored_dumpPayload_iff {ctx : Context} {db : Keyspace} {key newkey : Bytes} {e : Entry} (name : Bytes)
    (hv : isStream e.val = false) (hwf : e.val.WF) (hw : Rdb.Writable ctx.E (key, e))
    (hfree : db.live newkey ctx.now.ms = none) :
    Restored ctx name newkey (dumpPayload (writeSnapshot ctx.E none [(key, e)])) db e.val ↔
      Reloads ctx.now e.expireAt := by
  have hbusy : ¬ (¬ (RestoreOpts.replace {}) ∧ db.has ctx.now newkey) := by
    rw [has_eq, hfree]
    simp
  have hout : restoreCommand ctx [name, newkey, ascii "0", dumpPayload (writeSnapshot ctx.E none [(key, e)])] db =
      (restoredValue ctx.E ctx.now (writeSnapshot ctx.E none [(key, e)])).elim ⟨db, badDataFormat, none⟩
        fun v => ⟨db.set newkey v, ok, none⟩ := by
    cases hv : restoredValue ctx.E ctx.now (writeSnapshot ctx.E none [(key, e)]) <;>
      simp only [restoreCommand, getD_cons_succ, getD_cons_zero, drop_succ_cons, drop_nil,
        show parseInt (ascii "0") = some 0 from rfl, restoreOptions, dumpBody_dumpPayload, lt_irrefl, if_false,
        if_neg hbusy, hv, Option.elim_none, Option.elim_some]
  unfold Restored
  rw [hout]
  rcases restoredValue_dump ctx.now hw hv with ⟨hval, hok⟩ | ⟨hval, hno⟩ <;> rw [hval]
  · exact ⟨fun _ => hok, fun _ => ⟨rfl, _, lookup_insert _, reloaded_same hwf⟩⟩
  · exact ⟨fun h => absurd (show badDataFormat = ok from h.1) (by decide), fun h => absurd h hno⟩

/-- What `DUMP` replies is restored at a later clock exactly if the deadline in it is not lost. -/
theorem dump_restore_iff {ctx ctx' : Context} {db db' : Keyspace} {key newkey : Bytes} {e : Entry} (name name' : Bytes)
    (henv : ctx'.E = ctx.E) (hlive : db.live key ctx.now.ms = some e) (hv : Rdb.isStream e.val = false)
    (hwf : e.val.WF) (hw : Rdb.Writable ctx.E (key, e)) (hfree : db'.live newkey ctx'.now.ms = none) {payload : Bytes}
    (hdump : (dumpCommand ctx [name, key] db).reply = bulkString payload) :
    Restored ctx' name' newkey payload db' e.val ↔ Reloads ctx'.now e.expireAt := by
  obtain rfl := bulkString_inj (hdump.symm.trans (dumpCommand_live name hlive))
  rw [← henv] at hw ⊢
  exact restored_dumpPayload_iff name' hv hwf hw hfree

/-- A string with a deadline of one second, under the key `k`. -/
def fleeting : Entry := ⟨.str (ascii "v"), 1000⟩

lemma fleeting_writable : Rdb.Writable Env.bits (ascii "k", fleeting) :=
  ⟨by decide, by decide, show 1 < 2 ^ 63 by decide, trivial⟩

lemma fleeting_live : Keyspace.live (singleton (ascii "k") fleeting) (ascii "k")
    (openContext ⟨0, by decide⟩).now.ms = some fleeting := by decide

theorem fleeting_restored : ∃ payload, (dumpCommand (openContext ⟨0, by decide⟩) [ascii "DUMP", ascii "k"]
        (singleton (ascii "k") fleeting)).reply = bulkString payload ∧
      Restored (openContext ⟨10 ^ 6, by decide⟩) (ascii "RESTORE") (ascii "n") payload ∅ (.str (ascii "v")) := by
  refine ⟨_, dumpCommand_live _ fleeting_live, ?_⟩
  have hfree : Keyspace.live ∅ (ascii "n") (openContext ⟨10 ^ 6, by decide⟩).now.ms = none := by decide
  have hreloads : Reloads (openContext ⟨10 ^ 6, by decide⟩).now fleeting.expireAt := .inr (by decide)
  have hdump := dumpCommand_live (ascii "DUMP") fleeting_live
  generalize dumpPayload _ = payload at hdump ⊢
  exact (@dump_restore_iff (openContext ⟨0, by decide⟩) (openContext ⟨10 ^ 6, by decide⟩) _ _ _ _ fleeting (ascii "DUMP")
    (ascii "RESTORE") rfl fleeting_live rfl trivial fleeting_writable hfree _ hdump).2 hreloads

/-- Restored after the second, it is not there. -/
theorem fleeting_not_restored : ∃ payload, (dumpCommand (openContext ⟨0, by decide⟩) [ascii "DUMP", ascii "k"]
        (singleton (ascii "k") fleeting)).reply = bulkString payload ∧
      ¬ Restored (openContext ⟨10 ^ 9, by decide⟩) (ascii "RESTORE") (ascii "n") payload ∅ (.str (ascii "v")) := by
  refine ⟨_, dumpCommand_live _ fleeting_live, fun h => ?_⟩
  have hreloads := (@restored_dumpPayload_iff (openContext ⟨10 ^ 9, by decide⟩) ∅ (ascii "k") (ascii "n") fleeting _ rfl trivial
    fleeting_writable (by decide)).1 h
  rcases hreloads with h0 | ⟨hlt, -⟩
  · exact absurd h0 (by decide)
  · exact absurd hlt (by decide)

end Gopherdis.Command
