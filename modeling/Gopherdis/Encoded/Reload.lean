/-
Values that were built by `SET`, `LPUSH`, `RPUSH`, `HSET`, `SADD` and `ZADD`, saved and loaded. Whatever else happens
to a keyspace in between, keys that run out or are evicted, every object in it was built by insertions into a new
value. Whether a load finds the encoding it was saved with depends on these insertions alone.
-/
import Gopherdis.Encoded.Builds
import Gopherdis.Encoded.NoEmpty
import Gopherdis.Rdb.RoundTrip

namespace Gopherdis.Encoded

open Lib Codec Object Store Command List

variable {β γ : Type} {S : Settings} {c : Call} {db db' : MemDB} {key : Bytes} {now : Clock} {argv : Argv}

/-! ## Objects that were built -/

/-- The object is what some insertions make of a new value. -/
def WasBuilt (S : Settings) (o : Robj) : Prop := ∃ b : Build, b.Some ∧ o = b.object S

abbrev AllBuilt (S : Settings) : MemDB → Prop := Each (WasBuilt S)

/-- The builds of a kind, by one function of the views. -/
structure Inserts (S : Settings) (K : Kind β) (f : Held β → γ → List (Edit β)) : Prop where
  wasBuilt : ∀ xs, xs ≠ [] → WasBuilt S ((built K f xs).obj K)
  held : ∀ h : Held β, WasBuilt S (h.obj K) → ∃ xs, xs ≠ [] ∧ h = built K f xs

lemma obj_inj {K : Kind β} {h h' : Held β} (heq : h.obj K = h'.obj K) : h = h' := by
  obtain ⟨items, enc⟩ := h
  obtain ⟨items', enc'⟩ := h'
  obtain ⟨hval, henc⟩ := Robj.mk.inj heq
  have hitems : some items = some items' := by rw [← K.view_wrap, hval, K.view_wrap]
  simp only at henc
  rw [Option.some.inj hitems, henc]

lemma tryEncodeString_val (b : Bytes) : (tryEncodeString b).val = .str b := by
  unfold tryEncodeString embString rawString
  split_ifs <;> rfl

lemma inserts_each : (Inserts S listKind (pushOne S) ∧ Inserts S hashKind (hashSetEdits S)) ∧
    Inserts S setKind (setAddEdits S) ∧ Inserts S zsetKind (zAddEdits S) := by
  refine ⟨⟨⟨fun xs hxs => ⟨.list xs, hxs, rfl⟩, ?_⟩, ⟨fun xs hxs => ⟨.hash xs, hxs, rfl⟩, ?_⟩⟩,
    ⟨fun xs hxs => ⟨.set xs, hxs, rfl⟩, ?_⟩, ⟨fun xs hxs => ⟨.zset xs, hxs, rfl⟩, ?_⟩⟩
  all_goals
    rintro h ⟨b, hb, heq⟩
    have hval := congrArg Robj.val heq
    cases b with
    | str b => cases hval.trans (tryEncodeString_val b)
    | list xs | hash xs | set xs | zset xs => first | exact ⟨xs, hb, obj_inj heq⟩ | cases hval

lemma inserts_list : Inserts S listKind (pushOne S) := inserts_each.1.1

lemma inserts_hash : Inserts S hashKind (hashSetEdits S) := inserts_each.1.2

lemma inserts_set : Inserts S setKind (setAddEdits S) := inserts_each.2.1

lemma inserts_zset : Inserts S zsetKind (zAddEdits S) := inserts_each.2.2

/-! ## The commands -/

section
variable {K : Kind β} {f : Held β → γ → List (Edit β)}

variable (hi : Inserts S K f) (hdb : AllBuilt S db)
include hi hdb

lemma each_built_getOrCreate {g : Except Bytes (View β × Bool) → MemM S.E Bytes}
    (herror : ∀ db', AllBuilt S db' → (g (.error wrongType)).Ends db' fun _ => AllBuilt S)
    (hok : ∀ (w : View β) (created : Bool) (db' : MemDB) (xs : List γ), w.held = built K f xs →
      (created = true ↔ xs = []) → Sees K c.now db w db' → (g (.ok (w, created))).Ends db' fun _ => AllBuilt S) :
    (getOrCreate K S c key >>= g).Ends db fun _ => AllBuilt S := by
  refine ends_getOrCreate_bind ?_ ?_ ?_
  · exact fun db' h _ => herror db' (hdb.looked h)
  · exact fun _ db' _ hw => hok _ true db' [] rfl (iff_of_true rfl rfl) hw
  · intro held _ db' _ hs hw
    obtain ⟨xs, hxs, rfl⟩ := hi.held held (hdb.live hs)
    exact hok _ false db' xs rfl (iff_of_false Bool.false_ne_true hxs) hw

variable {w : View β} (hw : Sees K now db w db')
include hw

lemma each_built_addTo {es : List (Edit β)} {xs : List γ} (hxs : xs ≠ []) (hes : w.held.edited es = built K f xs) :
    (w.performAll K S es).Ends db' fun _ => AllBuilt S := by
  refine (ends_performAll es hw).mono fun w' db1 h1 => ?_
  obtain ⟨-, hheld, -, hsees, -⟩ := h1
  refine hdb.sees hsees ?_
  rw [hheld, hes]
  exact hi.wasBuilt xs hxs

lemma each_built_insertAll {ys : List γ} (hw' : w.held = built K f ys) {xs : List γ} (hxs : xs ≠ []) :
    (w.performAll K S (editAll f w.held xs)).Ends db' fun _ => AllBuilt S := by
  refine each_built_addTo hi hdb hw (append_ne_nil_of_right_ne_nil ys hxs) ?_
  rw [hw', built_append]

lemma each_built_insertOne {ys : List γ} (hw' : w.held = built K f ys) (x : γ) :
    (w.performAll K S (f w.held x)).Ends db' fun _ => AllBuilt S := by
  refine each_built_addTo hi hdb hw (concat_ne_nil x ys) ?_
  rw [hw', built_concat]

end

lemma editAll_pushOne (side : ListEnd) (vals : List Bytes) (h : Held Bytes) :
    editAll (pushEdits S side) h vals = editAll (pushOne S) h (vals.map (Prod.mk side)) := by
  induction vals generalizing h with
  | nil => rfl
  | cons val vals ih =>
    rw [map_cons, editAll, editAll, ih]
    rfl

lemma each_built_push (side : ListEnd) (hargc : 3 ≤ argv.length) (hdb : AllBuilt S db) :
    (pushGeneric S c side argv).Ends db fun _ => AllBuilt S := by
  have hvals : (argv.drop 2).map (Prod.mk side) ≠ [] := by
    rw [Ne, map_eq_nil_iff, drop_eq_nil_iff]
    omega
  refine each_built_getOrCreate inserts_list hdb (fun _ h => h) fun w _ db1 ys hys _ hw => ?_
  simp only [editAll_pushOne]
  exact (each_built_insertAll inserts_list hdb hw hys hvals).bind fun _ _ h => h

lemma each_built_hset (hargc : 4 ≤ argv.length) (hdb : AllBuilt S db) :
    (hsetCommand S c argv).Ends db fun _ => AllBuilt S := by
  unfold hsetCommand hsetGeneric
  split_ifs
  · exact hdb
  · refine each_built_getOrCreate inserts_hash hdb (fun _ h => h) fun w _ db1 ys hys _ hw => ?_
    exact (each_built_insertAll inserts_hash hdb hw hys (pairUp_ne_nil hargc)).bind fun _ _ h => h

lemma each_built_sadd (hargc : 3 ≤ argv.length) (hdb : AllBuilt S db) :
    (saddCommand S c argv).Ends db fun _ => AllBuilt S := by
  have hmembers : argv.drop 2 ≠ [] := by
    rw [Ne, drop_eq_nil_iff]
    omega
  refine each_built_getOrCreate inserts_set hdb (fun _ h => h) fun w _ db1 ys hys _ hw => ?_
  exact (each_built_insertAll inserts_set hdb hw hys hmembers).bind fun _ _ h => h

lemma zaddEdits_built (o : ZaddOpts) (scores xs : List (Bytes × Score)) :
    ∃ ys, (built zsetKind (zAddEdits S) xs).edited (editAll (zaddEdits S o) (built zsetKind (zAddEdits S) xs) scores) =
      built zsetKind (zAddEdits S) (xs ++ ys) := by
  induction scores generalizing xs with
  | nil => exact ⟨[], by rw [append_nil]; rfl⟩
  | cons e scores ih =>
  rw [editAll, edited_append]
  by_cases hskip : o.skips S.E (zScore (built zsetKind (zAddEdits S) xs).items e.1) e.2 = true
  · obtain ⟨ys, hys⟩ := ih xs
    refine ⟨ys, ?_⟩
    rw [zaddEdits, if_pos hskip, edited_nil, hys]
  obtain ⟨ys, hys⟩ := ih (xs ++ [e])
  refine ⟨e :: ys, ?_⟩
  rw [zaddEdits, if_neg hskip, ← built_concat, hys, append_assoc, singleton_append]

section
variable (hdb : AllBuilt S db) {w : View (Bytes × Score)} (hw : Sees zsetKind c.now db w db') {created : Bool}
  {xs : List (Bytes × Score)} (hxs : w.held = built zsetKind (zAddEdits S) xs)
include hdb hw hxs

lemma each_built_dropIfCreated (hcreated : xs = [] → created = true) :
    (dropIfCreated S c w created).Ends db' fun _ => AllBuilt S := by
  by_cases hnil : xs = []
  · rw [dropIfCreated, if_pos (hcreated hnil)]
    refine (ends_drop hw c).mono fun _ db1 h1 => ?_
    obtain ⟨-, hframe, hhere⟩ := h1
    have hempty : w.held.items.isEmpty = true := by
      rw [hxs, hnil]
      rfl
    rw [if_pos hempty] at hhere
    refine hdb.of_frame (fun k (hk : k ≠ w.key) => hframe k hk ▸ hw.others k hk) fun s hs => ?_
    rw [hhere] at hs
    cases hs
  · have hdb' : AllBuilt S db' := hdb.sees hw (hxs ▸ inserts_zset.wasBuilt xs hnil)
    unfold dropIfCreated View.drop
    split_ifs
    · exact (each_del hdb').bind fun _ _ h => h
    all_goals exact hdb'

lemma each_built_zaddIncr (hcreated : created = true ↔ xs = []) (o : ZaddOpts) (member : Bytes) (delta : Score) :
    (zaddIncr S c o w created member delta).Ends db' fun _ => AllBuilt S := by
  have hdrop := each_built_dropIfCreated hdb hw hxs hcreated.2
  unfold zaddIncr
  dsimp only
  split_ifs with h1 h2
  · exact hdrop.bind fun _ _ h => h
  · -- the member was there, and so the set was not made here
    refine hdb.sees hw (hxs ▸ inserts_zset.wasBuilt xs ?_)
    rintro rfl
    rw [hxs] at h2
    cases h2.1
  · exact hdrop.bind fun _ _ h => h
  · exact (each_built_insertOne inserts_zset hdb hw hxs _).bind fun _ _ h => h

end

lemma each_built_zadd (hdb : AllBuilt S db) : (zaddCommand S c argv).Ends db fun _ => AllBuilt S := by
  unfold zaddCommand
  cases zaddArgs S argv with
  | error e => exact hdb
  | ok r =>
  obtain ⟨o, scores⟩ := r
  refine each_built_getOrCreate inserts_zset hdb (fun _ h => h) fun w created db1 xs hxs hcreated hw => ?_
  have hplain : ∀ reply : View (Bytes × Score) → Bytes,
      (w.performAll zsetKind S (editAll (zaddEdits S o) w.held scores) >>= fun w' =>
        dropIfCreated S c w' created >>= fun _ => (pure (reply w') : MemM S.E Bytes)).Ends db1
        fun _ => AllBuilt S := by
    intro reply
    refine (ends_performAll _ hw).bind fun w' db2 h2 => ?_
    obtain ⟨-, hheld, -, hsees, -⟩ := h2
    obtain ⟨ys, hys⟩ := zaddEdits_built o scores xs
    rw [hxs, hys] at hheld
    refine (each_built_dropIfCreated hdb hsees hheld fun h => ?_).bind fun _ _ h => h
    exact hcreated.2 (append_eq_nil_iff.1 h).1
  cases o.incr with
  | false => exact hplain _
  | true =>
    cases scores with
    | nil => exact hplain _
    | cons e scores => exact each_built_zaddIncr hdb hw hxs hcreated o e.1 e.2

lemma each_built_set (hdb : AllBuilt S db) : (setCommand S c argv).Ends db fun _ => AllBuilt S := by
  unfold setCommand
  cases setOptions (argv.drop 3) {} with
  | error e => exact hdb
  | ok o =>
  dsimp only
  split_ifs
  · exact hdb
  refine MemM.ends_get.bind fun old db1 h1 => ?_
  have hdb1 := hdb.looked h1.2
  have hobj : WasBuilt S (tryEncodeString (argv.getD 2 [])) := ⟨.str (argv.getD 2 []), trivial, rfl⟩
  cases setDecision (c.context S) o (old.map Robj.val) with
  | leave reply override => exact hdb1
  | write reply =>
  have hstore : (storeTimed S c o.expiry (argv.getD 1 []) (tryEncodeString (argv.getD 2 []))).Ends db1
      fun _ => AllBuilt S := by
    unfold storeTimed
    cases o.expiry.ttl with
    | some ttl => exact (each_store hdb1 hobj).bind fun _ _ h => h
    | none =>
    split_ifs
    · exact (each_store hdb1 hobj).bind fun _ _ h => (each_setExpireAt h).bind fun _ _ h => h
    · refine hdb1.leaves (leaves_replace db1 (argv.getD 1 []) _) fun s hs => ?_
      cases hs
      exact hobj
    · exact (each_store hdb1 hobj).bind fun _ _ h => h
  exact hstore.bind fun _ _ h => h

/-! ## Runs of insertions -/

/-- The commands that only insert. -/
def insertTable : List Handler :=
  [⟨ascii "set", -3, setCommand⟩, handler "lpush" (-3) lpushCommand, handler "rpush" (-3) rpushCommand,
    handler "hset" (-4) hsetCommand, handler "sadd" (-3) saddCommand, handler "zadd" (-4) zaddCommand]

/-- The limits of the encodings are fixed, those of the memory may change. -/
def Settings.limitedBy (S : Settings) (sv : Store.Server) : Settings :=
  S.under { sv with listMaxListpackSize := S.server.listMaxListpackSize }

def insert (S : Settings) (db : MemDB) (a : Store.Server × MemAct) : Option MemDB :=
  some ((a.2.run insertTable (S.limitedBy a.1)).after db)

lemma each_built_insertTable : ∀ h ∈ insertTable, h.arityOk argv.length = true → AllBuilt S db →
    (h.run S c argv).Ends db fun _ => AllBuilt S := by
  simp only [insertTable, forall_mem_cons]
  refine ⟨fun _ h => each_built_set h, ?_, ?_, ?_, ?_, ?_, fun _ h => absurd h not_mem_nil⟩
  · exact fun ha h => (each_built_push .left (Handler.argc_le rfl ha) h).bind fun _ _ h => h
  · exact fun ha h => (each_built_push .right (Handler.argc_le rfl ha) h).bind fun _ _ h => h
  · exact fun ha h => (each_built_hset (Handler.argc_le rfl ha) h).bind fun _ _ h => h
  · exact fun ha h => (each_built_sadd (Handler.argc_le rfl ha) h).bind fun _ _ h => h
  · exact fun _ h => (each_built_zadd h).bind fun _ _ h => h

lemma each_built_runCommand (hdb : AllBuilt S db) : (runCommand insertTable S c argv).Ends db fun _ => AllBuilt S := by
  rcases runCommand_cases insertTable S c argv with ⟨h, hmem, ha, -, hrun⟩ | ⟨_, hrun⟩
  · rw [hrun]
    exact each_built_insertTable h hmem ha hdb
  · rw [hrun]
    exact hdb

lemma each_built_insert {a : Store.Server × MemAct} (hdb : AllBuilt S db) (h : insert S db a = some db') :
    AllBuilt S db' := by
  cases h
  exact each_act hdb fun _ _ _ => each_built_runCommand hdb

lemma run_builds {acts : List (Store.Server × MemAct)} (h : Run (insert S) Free .empty acts db) : AllBuilt S db := by
  refine h.inv (fun hdb _ hs => each_built_insert hdb hs) ?_
  intro k s hs
  cases (Finmap.lookup_empty k).symm.trans hs

/-! ## Saved and loaded -/

/-- The entries are of keys that are live, each with what its key holds, in whatever order it is walked. -/
def Saves (S : Settings) (now : Clock) (db : MemDB) (snap : Rdb.Snapshot S.E) : Prop :=
  ∀ e ∈ snap.entries, ∃ s, db.live e.1 now.ms = some s ∧ e.2.val.Same s.obj.val ∧ e.2.expireAt = s.exp.getD 0

variable {entries : List (Bytes × Entry)}

lemma pendingDeadline_of_noStream
    (h : ∀ e ∈ entries, Rdb.isStream e.2.val = false) : Rdb.pendingDeadline entries = 0 := by
  have hfold : ∀ es : List (Bytes × Entry), (∀ e ∈ es, Rdb.isStream e.2.val = false) →
      es.foldl (fun x e => Rdb.pendingAfter x e.2) 0 = 0 := by
    intro es
    induction es with
    | nil => exact fun _ => rfl
    | cons e es ih =>
      intro hes
      obtain ⟨he, hes⟩ := forall_mem_cons.1 hes
      rw [foldl_cons, Rdb.pendingAfter, if_neg (by rw [he]; exact Bool.false_ne_true)]
      exact ih hes
  exact hfold entries h

lemma loadEntries_live {E : Env} (hnodup : (entries.map Prod.fst).Nodup)
    (hstream : ∀ e ∈ entries, Rdb.isStream e.2.val = false) {e : Bytes × Entry} (he : e ∈ entries)
    (hlive : e.2.expireAt = 0 ∨ now.ms < e.2.expireAt) :
    ∃ exp, ((entries.foldl (Rdb.loadEntry E now) (0, ∅)).2).lookup e.1 = some ⟨Rdb.reloaded E e.2.val, exp⟩ := by
  obtain ⟨pre, post, rfl⟩ := append_of_mem he
  have hpost : ∀ e' ∈ post, e.1 ≠ e'.1 := by
    intro e' he' heq
    rw [map_append, map_cons, nodup_append] at hnodup
    exact (nodup_cons.1 hnodup.2.1).1 (heq ▸ mem_map_of_mem he')
  have hpending := pendingDeadline_of_noStream fun e' he' => hstream e' (mem_append_left _ he')
  rw [Rdb.pendingDeadline] at hpending
  rw [foldl_append, foldl_cons, Rdb.loadEntries_frame hpost]
  simp only [Rdb.loadEntry, hstream e he, Bool.false_eq_true, if_false, Rdb.loadEntries_pending, hpending]
  refine ⟨_, Rdb.storeLoaded_lookup ?_ _ _ _⟩
  split_ifs
  · exact hlive
  · exact .inl rfl

lemma Saves.noStream {snap : Rdb.Snapshot S.E} (hdb : AllBuilt S db) (h : Saves S now db snap) :
    ∀ e ∈ snap.entries, Rdb.isStream e.2.val = false := by
  intro e he
  obtain ⟨s, hs, hsame, -⟩ := h e he
  obtain ⟨b, -, hobj⟩ := hdb.live hs
  rw [hobj] at hsame
  cases b with
  | str b =>
    rw [Build.object, tryEncodeString_val] at hsame
    revert hsame
    cases e.2.val <;> intro hsame <;> first | rfl | cases hsame
  | _ =>
    revert hsame
    cases e.2.val <;> intro hsame <;> first | rfl | cases hsame

/-- Whatever was inserted into a keyspace, a value that is saved and loaded reports the encoding it had exactly if the
insertions it was built by are of those after which it is kept. -/
theorem loaded_encoding_kept_iff {acts : List (Store.Server × MemAct)} (hrun : Run (insert S) Free .empty acts db)
    {savedAt : Clock} {snap : Rdb.Snapshot S.E} (hsaved : Saves S savedAt db snap) (prelude : Option Clock)
    (now : Clock) : ∃ loaded, Rdb.load S.E now (Rdb.writeSnapshot S.E prelude snap.entries) ∅ = (.ok (), loaded) ∧
      ∀ e ∈ snap.entries, e.2.expireAt = 0 ∨ now.ms < e.2.expireAt →
        ∃ s e', db.lookup e.1 = some s ∧ loaded.lookup e.1 = some e' ∧ (∃ b : Build, b.Some ∧ s.obj = b.object S) ∧
          ∀ b : Build, b.Some → s.obj = b.object S →
            ((loadedObject S.E S.server.listMaxListpackSize e'.val).encodingName = s.obj.encodingName ↔ b.Kept S) := by
  have hdb := run_builds hrun
  refine ⟨_, Rdb.load_writeSnapshot snap.writable prelude ∅, fun e he hlive => ?_⟩
  obtain ⟨s, hs, hsame, -⟩ := hsaved e he
  obtain ⟨exp, hloaded⟩ := loadEntries_live snap.nodup (hsaved.noStream hdb) he hlive
  refine ⟨s, _, (MemDB.live_eq_some.1 hs).1, hloaded, hdb.live hs, fun b hb hobj => ?_⟩
  rw [Robj.encodingName_eq_iff, hobj]
  refine Build.loadedObject_enc_iff hb ?_
  rw [← hobj]
  exact (Rdb.reloaded_same (snap.wf e he)).trans hsame

def someWords : List Bytes := [ascii "c", ascii "12", ascii "a", ascii "bb", ascii "c"]

/-- The words are pushed at both ends, in three commands. -/
def pushes : List (Store.Server × MemAct) :=
  [["RPUSH", "l", "a", "bb"], ["LPUSH", "l", "12", "c"], ["RPUSH", "l", "c"]].map fun argv =>
    ({}, .command .zero (argv.map ascii))

def pushesSaved : Rdb.Snapshot Settings.bits.E where
  entries := [(ascii "l", ⟨.list someWords, 0⟩)]
  nodup := by decide
  writable := by
    simp only [forall_mem_singleton]
    exact ⟨by decide, by decide, ⟨by decide, by decide⟩, trivial⟩
  wf := by
    simp only [forall_mem_singleton]
    trivial

theorem pushed_list_keeps_encoding : ∃ db loaded s e', runAll (insert .bits) .empty pushes = some db ∧
      Rdb.load Settings.bits.E .zero (Rdb.writeSnapshot Settings.bits.E none pushesSaved.entries) ∅ = (.ok (), loaded) ∧
      db.lookup (ascii "l") = some s ∧ loaded.lookup (ascii "l") = some e' ∧
      (loadedObject Settings.bits.E (-2) e'.val).encodingName = s.obj.encodingName := by
  obtain ⟨db, hdb⟩ : ∃ db, runAll (insert .bits) .empty pushes = some db := ⟨_, rfl⟩
  have hslot : db.live (ascii "l") Clock.zero.ms = some ⟨⟨.list someWords, .listpack⟩, none⟩ := by
    cases hdb
    decide +kernel
  have hsaved : Saves .bits .zero db pushesSaved := by
    intro e he
    obtain rfl := mem_singleton.1 he
    exact ⟨_, hslot, rfl, rfl⟩
  obtain ⟨loaded, hload, hkept⟩ := loaded_encoding_kept_iff (Run.of_runAll hdb) hsaved none .zero
  obtain ⟨s, e', hs, he', -, hiff⟩ := hkept _ (mem_singleton_self _) (.inl rfl)
  have hobj : s.obj = (Build.list [(.right, ascii "a"), (.right, ascii "bb"), (.left, ascii "12"), (.left, ascii "c"),
      (.right, ascii "c")]).object .bits := by
    cases hs.symm.trans (MemDB.live_eq_some.1 hslot).1
    decide +kernel
  refine ⟨db, loaded, s, e', hdb, hload, hs, he', (hiff (.list _) (cons_ne_nil _ _) hobj).2 ?_⟩
  exact .inr (.inr (by decide))

/-- What a file with this object alone is loaded as. -/
def reloadedAlone (S : Settings) (key : Bytes) (o : Robj) : Option Robj :=
  ((Rdb.load S.E .zero (Rdb.writeSnapshot S.E none [(key, ⟨o.val, 0⟩)]) ∅).2.lookup key).map fun e =>
    loadedObject S.E S.server.listMaxListpackSize e.val

/-- The encodings of a key, before it is saved and once it is loaded. -/
def encodings (S : Settings) (key : Bytes) (argvs : List Argv) : Option (String × Option String) :=
  (runAll (insert S) .empty (argvs.map fun argv => ({}, .command .zero argv))).bind fun db =>
    (db.lookup key).map fun s => (s.obj.encodingName, (reloadedAlone S key s.obj).map Robj.encodingName)

/-- A number is loaded as a raw string, and a hash whose long value was replaced as a listpack. -/
theorem encodings_change_on_load :
    encodings .bits (ascii "k") [[ascii "SET", ascii "k", ascii "123"]] = some ("int", some "raw") ∧
      encodings .bits (ascii "h") [[ascii "HSET", ascii "h", ascii "f", List.replicate 65 97],
        [ascii "HSET", ascii "h", ascii "f", ascii "v"]] = some ("hashtable", some "listpack") := by
  decide +kernel

end Gopherdis.Encoded
