/-
No collection is stored without elements, as far as the commands go that look after it: a collection
that was made is filled or dropped, and one that was emptied is dropped. `GEOADD` does neither: it makes
its sorted set before it has read a position, and never looks whether it has put one in.
-/
import Gopherdis.Encoded.Moves
import Gopherdis.Encoded.Table
import Gopherdis.Lib.Runs

namespace Gopherdis.Encoded

open Lib Codec Object Store Command List MemM Traced

variable {β : Type} {K : Kind β} {S : Settings} {c : Call} {db db' : MemDB} {key : Bytes} {now : Clock} {argv : Argv}

/-! ## Operations on a keyspace without empty collections -/

section
variable (hf : Full db)
include hf

lemma full_looked (h : Looked now db key db') : Full db' := h.neat.full hf

lemma full_get : (get now key : MemM S.E _).Ends db fun r db' => Full db' ∧ ∀ o, r = some o → isVoid o.val = false := by
  refine ends_get.mono fun r db1 h1 => ?_
  obtain ⟨rfl, h1⟩ := h1
  refine ⟨full_looked hf h1, fun o ho => ?_⟩
  obtain ⟨s, hs, rfl⟩ := Option.map_eq_some_iff.1 ho
  exact hf key s (MemDB.live_eq_some.1 hs).1

/-- An object that is no empty collection. -/
def NotVoid (o : Robj) : Prop := isVoid o.val = false

lemma full_set {obj : Robj} (hobj : isVoid obj.val = false) (sv : Store.Server) :
    (set sv key obj : MemM S.E _).Ends db fun _ => Full :=
  each_store (P := NotVoid) hf hobj

lemma full_del : (del now key : MemM S.E _).Ends db fun _ => Full :=
  each_del (P := NotVoid) hf

lemma full_setExpireAt {exp : Int} : (setExpireAt now key exp : MemM S.E _).Ends db fun _ => Full :=
  each_setExpireAt (P := NotVoid) hf

lemma full_persist : (persist now key : MemM S.E _).Ends db fun _ => Full := by
  refine ends_persist.mono fun _ db1 h1 => ?_
  rcases h1 with h1 | h1
  · refine Each.leaves (P := NotVoid) hf h1 fun s hs => ?_
    obtain ⟨t, ht, rfl⟩ := Option.map_eq_some_iff.1 hs
    have := hf key t ht
    split_ifs <;> exact this
  · exact Each.leaves (P := NotVoid) hf h1 fun s hs => hf key s hs

lemma full_addTo {w : View β} (h : Sees K now db w db') {es : List (Edit β)}
    (hes : (w.held.edited es).items ≠ []) : (w.performAll K S es).Ends db' fun _ => Full := by
  refine (ends_performAll es h).mono fun w' db1 h1 => ?_
  obtain ⟨-, hheld, -, hsees, -⟩ := h1
  exact (hsees.neat fun _ => hheld ▸ hes).full hf

end

/-! ## Stored results -/

lemma full_getSets : ∀ (keys : List Bytes) {db : MemDB}, Full db → (getSets S c keys).Ends db fun _ => Full
  | [], _, hf => hf
  | key :: keys, db, hf => by
    refine ends_getView_bind ?_ ?_ ?_
    · exact fun _ h => full_looked hf h
    · intro db1 h _
      refine (full_getSets keys (full_looked hf h)).bind fun r db2 h2 => ?_
      cases r <;> exact h2
    · intro _ _ db1 h _ _
      refine (full_getSets keys (full_looked hf h)).bind fun r db2 h2 => ?_
      cases r <;> exact h2

lemma full_storeOp (hf : Full db) (op : SetOp) : (storeOp S c op argv).Ends db fun _ => Full := by
  refine (full_getSets (argv.drop 2) hf).bind fun r db1 hf1 => ?_
  cases r with
  | error e => exact hf1
  | ok sets =>
  refine (full_del hf1).bind fun _ db2 hf2 => ?_
  split_ifs with hm
  · exact hf2
  have hadd : ∀ h : Held Bytes, (h.edited (editAll (setAddEdits S) h (op.eval sets))).items ≠ [] :=
    editAll_ne_nil setAddEdits_ne_nil fun h => hm (by rw [h]; rfl)
  refine ends_getOrCreate_bind ?_ ?_ ?_
  · exact fun _ h _ => full_looked hf2 h
  · exact fun _ _ _ hw => (full_addTo hf2 hw (hadd _)).bind fun _ _ h => h
  · exact fun _ _ _ _ _ hw => (full_addTo hf2 hw (hadd _)).bind fun _ _ h => h

lemma full_zstoreItems (hf : Full db) (dst : Bytes) (items : List (Bytes × Score)) :
    (zstoreItems S c dst items).Ends db fun _ => Full := by
  refine (full_del hf).bind fun _ db1 hf1 => ?_
  split_ifs with hm
  · exact hf1
  have hadd : ∀ h : Held (Bytes × Score), (h.edited (editAll (zAddEdits S) h items)).items ≠ [] :=
    editAll_ne_nil zAddEdits_ne_nil fun h => hm (by rw [h]; rfl)
  refine ends_getOrCreate_bind ?_ ?_ ?_
  · exact fun _ h _ => full_looked hf1 h
  · exact fun _ _ _ hw => (full_addTo hf1 hw (hadd _)).bind fun _ _ h => h
  · exact fun _ _ _ _ _ hw => (full_addTo hf1 hw (hadd _)).bind fun _ _ h => h

lemma full_zsetOperand (hf : Full db) : (zsetOperand S c key).Ends db fun _ => Full := by
  refine (full_get hf).bind fun r db1 h1 => ?_
  cases r with
  | none => exact h1.1
  | some o =>
    obtain ⟨val, enc⟩ := o
    cases val <;> exact h1.1

lemma full_zsetOperands : ∀ (keys : List Bytes) {db : MemDB}, Full db → (zsetOperands S c keys).Ends db fun _ => Full
  | [], _, hf => hf
  | key :: keys, db, hf => by
    refine (full_zsetOperand hf).bind fun r db1 hf1 => ?_
    cases r with
    | error e => exact hf1
    | ok es =>
      refine (full_zsetOperands keys hf1).bind fun r db2 hf2 => ?_
      cases r <;> exact hf2

lemma full_zsetStoreGeneric (hf : Full db) (op : SetOp) : (zsetStoreGeneric S c op argv).Ends db fun _ => Full := by
  unfold zsetStoreGeneric
  cases parseZsetOp S (argv.drop 2) with
  | error e => exact hf
  | ok a =>
    refine (full_zsetOperands a.keys hf).bind fun r db1 hf1 => ?_
    cases r with
    | error e => exact hf1
    | ok operands => exact full_zstoreItems hf1 _ _

lemma full_zrangeSelect (hf : Full db) (args : List Bytes) : (zrangeSelect S c args).Ends db fun _ => Full := by
  unfold zrangeSelect
  split_ifs
  · exact hf
  cases zrangeOptions (args.drop 3) {} with
  | error e => exact hf
  | ok o =>
  simp only
  split_ifs
  · exact hf
  · exact hf
  refine ends_getView_bind ?_ ?_ ?_
  · exact fun _ h => full_looked hf h
  · exact fun _ h _ => full_looked hf h
  · exact fun _ _ _ h _ _ => full_looked hf h

lemma full_zrangestore (hf : Full db) : (zrangestoreCommand S c argv).Ends db fun _ => Full := by
  refine (full_zrangeSelect hf _).bind fun r db1 hf1 => ?_
  cases r with
  | error e => exact hf1
  | ok items => exact full_zstoreItems hf1 _ _

/-! ## SORT -/

lemma full_lookupPattern (hf : Full db) (pattern element : Bytes) :
    (lookupPattern S c pattern element).Ends db fun _ => Full := by
  unfold lookupPattern
  split_ifs
  · exact hf
  · cases splitArrow (substituteStar element pattern) with
    | none => exact (full_get hf).bind fun _ _ h => h.1
    | some p =>
      refine ends_getView_bind ?_ ?_ ?_
      · exact fun _ h => full_looked hf h
      · exact fun _ h _ => full_looked hf h
      · exact fun _ _ _ h _ _ => full_looked hf h
  · exact hf

lemma full_lookupAll (pattern : Bytes) : ∀ (elements : List Bytes) {db : MemDB}, Full db →
    (lookupAll S c pattern elements).Ends db fun _ => Full
  | [], _, hf => hf
  | element :: elements, _, hf =>
    (full_lookupPattern hf pattern element).bind fun _ _ hf1 => (full_lookupAll pattern elements hf1).bind fun _ _ h => h

lemma full_sortElements (hf : Full db) (o : SortOpts) (elements : List Bytes) :
    (sortElements S c o elements).Ends db fun _ => Full := by
  unfold sortElements
  split_ifs
  · exact hf
  · exact hf
  · exact hf
  · exact (full_lookupAll o.byPat elements hf).bind fun _ _ h => h

lemma full_patterns (element : Bytes) : ∀ (patterns : List Bytes) {db : MemDB}, Full db →
    (patterns.mapM fun p => lookupPattern S c p element : MemM S.E _).Ends db fun _ => Full
  | [], _, hf => hf
  | p :: patterns, _, hf => by
    rw [mapM_cons]
    exact (full_lookupPattern hf p element).bind fun _ _ hf1 => (full_patterns element patterns hf1).bind fun _ _ h => h

lemma full_sortOutput (getPats : List Bytes) : ∀ (elements : List Bytes) {db : MemDB}, Full db →
    (sortOutput S c getPats elements).Ends db fun _ => Full
  | [], _, hf => hf
  | element :: elements, db, hf => by
    rw [sortOutput]
    split_ifs
    · rw [pure_bind]
      exact (full_sortOutput getPats elements hf).bind fun _ _ h => h
    · exact (full_patterns element getPats hf).bind fun _ _ hf1 => (full_sortOutput getPats elements hf1).bind fun _ _ h => h

lemma full_sortReply (hf : Full db) (storeKey : Bytes) (out : List (Option Bytes)) :
    (sortReply S c storeKey out).Ends db fun _ => Full := by
  unfold sortReply
  split_ifs with hkey hout
  · exact hf
  · exact (full_del hf).bind fun _ _ h => h
  refine (full_set hf ?_ S.server).bind fun _ _ h => h
  cases out with
  | nil => exact absurd rfl hout
  | cons _ _ => rfl

lemma full_sort (hf : Full db) : (sortCommand S c argv).Ends db fun _ => Full := by
  unfold sortCommand
  cases sortOptions (argv.drop 2) {} with
  | error e => exact hf
  | ok o =>
  refine (full_get hf).bind fun r db1 h1 => ?_
  cases r.elim (some []) (sortSource c) with
  | none => exact h1.1
  | some elements =>
    refine (full_sortElements h1.1 o elements).bind fun r db2 hf2 => ?_
    cases r with
    | none => exact hf2
    | some elements => exact (full_sortOutput o.getPats _ hf2).bind fun _ _ hf3 => full_sortReply hf3 _ _

/-! ## The commands on keys -/

lemma full_delAll : ∀ (keys : List Bytes) {db : MemDB}, Full db → (delAll S c keys).Ends db fun _ => Full
  | [], _, hf => hf
  | _ :: keys, _, hf => (full_del hf).bind fun _ _ hf1 => (full_delAll keys hf1).bind fun _ _ h => h

lemma full_expireGeneric (hf : Full db) (x : ExpireOpt) (cmd : String) :
    (expireGeneric S c x cmd argv).Ends db fun _ => Full := by
  unfold expireGeneric
  cases expireArgs c x cmd argv with
  | error e => exact hf
  | ok r =>
  refine ends_read_bind ?_
  split_ifs
  · refine ends_read_bind ?_
    simp only
    split_ifs
    all_goals first | exact hf | exact (full_setExpireAt hf).bind fun _ _ h => h
  · exact hf

lemma full_storeWithTTL (hf : Full db) {obj : Robj} (hobj : isVoid obj.val = false) (dst : Bytes) (expireAt : Int) :
    (storeWithTTL S c dst obj expireAt).Ends db fun _ => Full := by
  refine (full_set hf hobj S.server).bind fun _ db1 hf1 => ?_
  split_ifs
  · exact (full_setExpireAt hf1).bind fun _ _ h => h
  · exact hf1

lemma full_found (hf : Full db) {obj : Robj} {expireAt : Int}
    (h : (db.live key now.ms).map (fun s => (s.obj, s.exp.getD 0)) = some (obj, expireAt)) : isVoid obj.val = false := by
  obtain ⟨s, hs, he⟩ := Option.map_eq_some_iff.1 h
  cases he
  exact hf key s (MemDB.live_eq_some.1 hs).1

lemma full_renameGeneric (hf : Full db) (src dst : Bytes) (nx : Bool) :
    (renameGeneric S c src dst nx).Ends db fun _ => Full := by
  unfold renameGeneric
  by_cases hsd : src = dst
  · rw [if_pos hsd]
    refine ends_read_bind ?_
    split_ifs <;> exact hf
  rw [if_neg hsd]
  refine ends_read_bind ?_
  cases hfound : (db.live src c.now.ms).map (fun s => (s.obj, s.exp.getD 0)) with
  | none => exact hf
  | some p =>
  refine ends_read_bind ?_
  split_ifs
  all_goals first
    | exact hf
    | exact (full_storeWithTTL hf (full_found hf hfound) dst p.2).bind fun _ _ hf1 =>
        (full_del hf1).bind fun _ _ h => h

lemma isVoid_copyObject {o dup : Robj} (h : copyObject o = .ok dup) (ho : isVoid o.val = false) :
    isVoid dup.val = false := by
  obtain ⟨val, enc⟩ := o
  unfold copyObject at h
  cases val with
  | str b =>
    cases h
    unfold tryEncodeString embString rawString
    split_ifs <;> rfl
  | stream s =>
    simp only [stringOf, deepCopy] at h
    split at h
    all_goals cases h
    rfl
  | _ =>
    cases h
    exact ho

lemma full_copy (hf : Full db) : (copyCommand S c argv).Ends db fun _ => Full := by
  unfold copyCommand
  cases copyOptions (argv.drop 3) false with
  | error e => exact hf
  | ok replace =>
  dsimp only
  split_ifs
  · exact hf
  refine ends_read_bind ?_
  cases hfound : (db.live (argv.getD 1 []) c.now.ms).map (fun s => (s.obj, s.exp.getD 0)) with
  | none => exact hf
  | some p =>
  refine ends_read_bind ?_
  split_ifs
  · exact hf
  cases hdup : copyObject p.1 with
  | error e => exact hf
  | ok dup =>
    have hdup := isVoid_copyObject hdup (full_found hf hfound)
    exact (full_storeWithTTL hf hdup _ p.2).bind fun _ _ h => h

/-! ## GEOADD -/

lemma full_geoaddLoop (hf : Full db) (o : GeoaddOpts) : ∀ (rem : List Bytes) {w : View (Bytes × Score)} {db' : MemDB}
    {added changed : Int}, Sees zsetKind now db w db' → w.held.items ≠ [] →
      (geoaddLoop S o w added changed rem).Ends db' fun _ => Full
  | [], _, _, _, _, hw, hne => (hw.neat fun _ => hne).full hf
  | [_], _, _, _, _, hw, hne => (hw.neat fun _ => hne).full hf
  | [_, _], _, _, _, _, hw, hne => (hw.neat fun _ => hne).full hf
  | lon :: lat :: member :: rest, w, db', added, changed, hw, hne => by
    rw [geoaddLoop]
    cases geoScore S lon lat with
    | error e => exact (hw.neat fun _ => hne).full hf
    | ok score =>
    simp only
    by_cases hskip : (zScore w.held.items member).isSome = true ∧ o.nx = true ∨
        (zScore w.held.items member).isNone = true ∧ o.xx = true
    · rw [if_pos hskip]
      exact full_geoaddLoop hf o rest hw hne
    rw [if_neg hskip]
    refine (ends_performAll _ hw).bind fun w' db1 h1 => ?_
    obtain ⟨-, hheld, -, hsees, -⟩ := h1
    exact full_geoaddLoop hf o rest hsees (hheld ▸ zAddEdits_ne_nil _ _)

lemma full_geoaddLoop_new (hf : Full db) {o : GeoaddOpts} (hxx : o.xx = false) {rem : List Bytes}
    (hrem : ¬ (rem = [] ∨ rem.length % 3 ≠ 0))
    (hfirst : (geoScore S (rem.getD 0 []) (rem.getD 1 [])).toOption.isSome = true) {w : View (Bytes × Score)}
    (hw : Sees zsetKind now db w db') (hnil : w.held.items = []) :
    (geoaddLoop S o w 0 0 rem).Ends db' fun _ => Full := by
  obtain _ | ⟨lon, _ | ⟨lat, _ | ⟨member, rest⟩⟩⟩ := rem
  · simp at hrem
  · simp at hrem
  · simp at hrem
  rw [geoaddLoop]
  simp only [getD_cons_zero, getD_cons_succ] at hfirst
  cases hscore : geoScore S lon lat with
  | error e =>
    rw [hscore] at hfirst
    cases hfirst
  | ok score =>
  simp only [hnil, hxx, show zScore ([] : List (Bytes × Score)) member = none from rfl, Option.isSome_none,
    Bool.false_eq_true, false_and, and_false, or_false, if_false]
  refine (ends_performAll _ hw).bind fun w' db1 h1 => ?_
  obtain ⟨-, hheld, -, hsees, -⟩ := h1
  exact full_geoaddLoop hf o rest hsees (hheld ▸ zAddEdits_ne_nil _ _)

/-- The arguments are refused, there is a live key, or the first position is one and may be added. -/
def GeoaddFills (S : Settings) (c : Call) (db : MemDB) (argv : Argv) : Prop :=
  let r := geoaddOptions (argv.drop 2) {}
  (r.2 = [] ∨ r.2.length % 3 ≠ 0) ∨ (db.live (argv.getD 1 []) c.now.ms).isSome = true ∨
    (r.1.xx = false ∧ (geoScore S (r.2.getD 0 []) (r.2.getD 1 [])).toOption.isSome = true)

lemma full_geoadd (hf : Full db) (hfills : GeoaddFills S c db argv) :
    (geoaddCommand S c argv).Ends db fun _ => Full := by
  unfold GeoaddFills at hfills
  unfold geoaddCommand
  generalize geoaddOptions (argv.drop 2) {} = r at hfills ⊢
  obtain ⟨o, rem⟩ := r
  simp only at hfills ⊢
  split_ifs with hrem
  · exact hf
  refine ends_getOrCreate_bind ?_ ?_ ?_
  · exact fun _ h _ => full_looked hf h
  · intro attached db1 hs hw
    rcases hfills with h | h | ⟨hxx, hfirst⟩
    · exact absurd h hrem
    · rw [hs] at h
      cases h
    · exact full_geoaddLoop_new hf hxx hrem hfirst hw rfl
  · intro held exp db1 _ hs hw
    exact full_geoaddLoop hf o rem hw (items_ne_nil hs fun s hl => hf _ s hl)

/-! ## The commands -/

/-- The command leaves no empty collection where there was none. -/
def Handler.Fills (h : Handler) : Prop :=
  ∀ {S : Settings} {c : Call} {argv : Argv} {db : MemDB}, h.arityOk argv.length = true → Full db →
    (h.run S c argv).Ends db fun _ db' => Full db'

section
variable {f : (S : Settings) → Call → Argv → MemM S.E Bytes} {name : String} {arity : Int}

lemma fills_handler (hf : ∀ {S : Settings} {c : Call} {argv : Argv} {db : MemDB},
    (handler name arity f).arityOk argv.length = true → Full db → (f S c argv).Ends db fun _ => Full) :
    (handler name arity f).Fills :=
  fun ha hfull => (hf ha hfull).bind fun _ _ h => h

lemma fills_of_tidy (hf : ∀ {S : Settings} {c : Call} {argv : Argv} {db : MemDB},
    (handler name arity f).arityOk argv.length = true → (f S c argv).Ends db (Tidy c.now db)) :
    (handler name arity f).Fills :=
  fills_handler fun ha hfull => (hf ha).mono fun _ _ h => h.neat.full hfull

end

lemma fills_listTable : ∀ h ∈ listTable, h.Fills := by
  simp only [listTable, forall_mem_cons]
  exact ⟨fills_of_tidy fun ha => tidy_push .left (Handler.argc_le rfl ha),
    fills_of_tidy fun ha => tidy_push .right (Handler.argc_le rfl ha),
    fills_of_tidy fun ha => tidy_pushx .left (Handler.argc_le rfl ha),
    fills_of_tidy fun ha => tidy_pushx .right (Handler.argc_le rfl ha),
    fills_of_tidy fun _ => tidy_pop .left, fills_of_tidy fun _ => tidy_pop .right, fills_of_tidy fun _ => tidy_lset,
    fills_of_tidy fun _ => tidy_linsert, fills_of_tidy fun _ => tidy_ltrim, fills_of_tidy fun _ => tidy_lrem,
    fills_handler fun _ hf => (moved_lmoveGeneric _ _ _ _).mono fun _ _ h => h.full hf,
    fills_handler fun _ hf => (moved_lmoveGeneric _ _ _ _).mono fun _ _ h => h.full hf,
    fun _ h => absurd h not_mem_nil⟩

lemma fills_hashTable : ∀ h ∈ hashTable, h.Fills := by
  simp only [hashTable, forall_mem_cons]
  exact ⟨fills_of_tidy fun ha => tidy_hsetGeneric "hset" (Handler.argc_le rfl ha),
    fills_of_tidy fun ha => tidy_hmset (Handler.argc_le rfl ha), fills_of_tidy fun _ => tidy_hsetnx,
    fills_of_tidy fun _ => tidy_hdel, fills_of_tidy fun _ => tidy_hincrby, fills_of_tidy fun _ => tidy_hincrbyfloat,
    fun _ h => absurd h not_mem_nil⟩

lemma fills_setTable : ∀ h ∈ setTable, h.Fills := by
  simp only [setTable, forall_mem_cons]
  exact ⟨fills_of_tidy fun ha => tidy_sadd (Handler.argc_le rfl ha), fills_of_tidy fun _ => tidy_srem,
    fun _ hf => tidy_spop.mono fun _ _ h => h.neat.full hf, fills_handler fun _ hf => moved_smove.mono fun _ _ h => h.full hf,
    fills_handler fun _ hf => full_storeOp hf .inter, fills_handler fun _ hf => full_storeOp hf .union,
    fills_handler fun _ hf => full_storeOp hf .diff, fun _ h => absurd h not_mem_nil⟩

lemma full_of_tidy {m : MemM S.E Bytes} (hf : Full db) (h : m.Ends db (Tidy now db)) : m.Ends db fun _ => Full :=
  h.mono fun _ _ h => h.neat.full hf

lemma fills_zsetTable : ∀ h ∈ zsetTable, h.Fills := by
  simp only [zsetTable, forall_mem_cons]
  refine ⟨fills_of_tidy fun _ => tidy_zadd, fills_of_tidy fun _ => tidy_zincrby, fills_of_tidy fun _ => tidy_zrem,
    fills_of_tidy fun _ => tidy_zpop false, fills_of_tidy fun _ => tidy_zpop true, fills_handler fun _ hf => ?_,
    fills_handler fun _ hf => ?_, fills_handler fun _ hf => ?_, fills_handler fun _ hf => full_zsetStoreGeneric hf .union,
    fills_handler fun _ hf => full_zsetStoreGeneric hf .inter, fills_handler fun _ hf => full_zsetStoreGeneric hf .diff,
    fills_handler fun _ hf => full_zrangestore hf, fun _ h => absurd h not_mem_nil⟩
  · unfold zremrangebyrankCommand
    split
    · exact full_of_tidy hf (tidy_zremrange _)
    · exact hf
  · unfold zremrangebyscoreCommand
    split
    · exact full_of_tidy hf (tidy_zremrange _)
    · exact hf
  · unfold zremrangebylexCommand
    split
    · exact full_of_tidy hf (tidy_zremrange _)
    · exact hf

lemma fills_keyTable : ∀ h ∈ keyTable, h.Fills := by
  simp only [keyTable, forall_mem_cons]
  have hdel : ∀ {S : Settings} {c : Call} {argv : Argv} {db : MemDB}, Full db →
      (delCommand S c argv).Ends db fun _ => Full :=
    fun hf => (full_delAll _ hf).bind fun _ _ h => h
  have hpersist : ∀ {S : Settings} {c : Call} {argv : Argv} {db : MemDB}, Full db →
      (persistCommand S c argv).Ends db fun _ => Full :=
    fun hf => (full_persist hf).bind fun _ _ h => h
  have hflush : ∀ {S : Settings} {c : Call} {argv : Argv} {db : MemDB},
      (flushdbCommand S c argv).Ends db fun _ => Full := by
    intro S c argv db k s hs
    cases (Finmap.lookup_empty k).symm.trans hs
  exact ⟨fills_handler fun _ hf => hdel hf, fills_handler fun _ hf => hdel hf,
    fills_handler fun _ hf => full_expireGeneric hf .ex "expire",
    fills_handler fun _ hf => full_expireGeneric hf .px "pexpire",
    fills_handler fun _ hf => full_expireGeneric hf .exat "expireat",
    fills_handler fun _ hf => full_expireGeneric hf .pxat "pexpireat",
    fills_handler fun _ hf => hpersist hf,
    fills_handler fun _ hf => full_renameGeneric hf _ _ false, fills_handler fun _ hf => full_renameGeneric hf _ _ true,
    fills_handler fun _ hf => full_copy hf, fills_handler fun _ hf => full_sort hf, fills_handler fun _ _ => hflush,
    fills_handler fun _ _ => hflush, fun _ h => absurd h not_mem_nil⟩

/-! ## Runs -/

/-- The commands on lists, hashes, sets, sorted sets and positions, and those on keys. -/
def collectionTable : List Handler := listTable ++ hashTable ++ setTable ++ zsetTable ++ geoTable ++ keyTable

def collect (S : Settings) (db : MemDB) (a : Store.Server × MemAct) : Option MemDB :=
  some ((a.2.run collectionTable (S.under a.1)).after db)

/-- A `GEOADD` that makes its sorted set has a first position to put in, and may. -/
def FillsNew (S : Settings) (db : MemDB) (a : Store.Server × MemAct) : Prop :=
  ∀ c argv, a.2 = .command c argv → toLowerASCII (argv.headD []) = ascii "geoadd" → GeoaddFills S c db argv

lemma full_runCommand (hf : Full db) (hgeo : toLowerASCII (argv.headD []) = ascii "geoadd" → GeoaddFills S c db argv) :
    (runCommand collectionTable S c argv).Ends db fun _ => Full := by
  rcases runCommand_cases collectionTable S c argv with ⟨h, hmem, ha, hfind, hrun⟩ | ⟨_, hrun⟩
  · rw [hrun]
    simp only [collectionTable, mem_append] at hmem
    rcases hmem with ((((hmem | hmem) | hmem) | hmem) | hmem) | hmem
    · exact fills_listTable h hmem ha hf
    · exact fills_hashTable h hmem ha hf
    · exact fills_setTable h hmem ha hf
    · exact fills_zsetTable h hmem ha hf
    · rw [geoTable, mem_singleton] at hmem
      subst hmem
      have hname := find?_some hfind
      simp only [decide_eq_true_eq] at hname
      exact (full_geoadd hf (hgeo hname.symm)).bind fun _ _ h => h
    · exact fills_keyTable h hmem ha hf
  · rw [hrun]
    exact hf

section
variable {P : Robj → Prop}

lemma each_readKeys : ∀ (keys : List Bytes) {db : MemDB}, Each P db → (readKeys S c keys).Ends db fun _ => Each P
  | [], _, h => h
  | _ :: keys, _, h => ends_get.bind fun _ _ h1 => each_readKeys keys (h.looked h1.2)

lemma each_reclaimKeys : ∀ (keys : List Bytes) {db : MemDB}, Each P db →
    (reclaimKeys S now keys).Ends db fun _ => Each P
  | [], _, h => h
  | key :: keys, db, h => by
    refine ends_read_bind ?_
    split_ifs
    · exact each_reclaimKeys keys (h.thinned (thinned_remove db key))
    · exact each_reclaimKeys keys h

lemma each_act {t : List Handler} {a : MemAct} (h : Each P db)
    (hcommand : ∀ c argv, a = .command c argv → (runCommand t S c argv).Ends db fun _ => Each P) :
    (a.run t S).Ends db fun _ => Each P := by
  cases a with
  | command c argv => exact (hcommand c argv rfl).bind fun _ _ h => h
  | read c keys => exact each_readKeys keys h
  | expireCycle now keys => exact each_reclaimKeys keys h
  | freeMemory => exact (freeMemoryIfNeeded_thins).bind fun _ _ ht => h.thinned ht

end

lemma full_collect {a : Store.Server × MemAct} (hf : Full db) (ha : FillsNew S db a) (h : collect S db a = some db') :
    Full db' := by
  cases h
  exact each_act (P := NotVoid) hf fun c argv h => full_runCommand hf (ha c argv h)

/-- No run stores an empty collection, as long as every sorted set a `GEOADD` makes gets its first element. -/
theorem run_leaves_no_empty_collection {acts : List (Store.Server × MemAct)}
    (h : Run (collect S) (FillsNew S) .empty acts db) : Full db := by
  refine h.inv (fun hf ha hs => full_collect hf ha hs) ?_
  intro k s hs
  cases (Finmap.lookup_empty k).symm.trans hs

/-- A position is added to a key of its own, and a list is emptied. -/
def addedAndPopped : List (Store.Server × MemAct) :=
  [({}, .command .zero [ascii "GEOADD", ascii "g", ascii "1", ascii "2", ascii "m"]),
    ({}, .command .zero [ascii "RPUSH", ascii "l", ascii "a"]), ({}, .command .zero [ascii "LPOP", ascii "l"])]

theorem added_position_stays : ∃ db, runAll (collect .bits) .empty addedAndPopped = some db ∧ Full db := by
  have hruns : ∀ db, ∀ a ∈ addedAndPopped, FillsNew .bits db a := by
    intro db a ha c argv h hname
    simp only [addedAndPopped, mem_cons, not_mem_nil, or_false] at ha
    rcases ha with rfl | rfl | rfl
    · cases h
      exact Or.inr (Or.inr (by decide +kernel))
    all_goals
      cases h
      exact absurd hname (by decide)
  obtain ⟨db, hdb⟩ : ∃ db, runAll (collect .bits) .empty addedAndPopped = some db := ⟨_, rfl⟩
  exact ⟨db, hdb, run_leaves_no_empty_collection (Run.guarded hruns hdb)⟩

/-- With `XX` nothing is added, and the sorted set that was made stays. -/
theorem geoadd_leaves_empty :
    (((MemAct.command .zero [ascii "GEOADD", ascii "g", ascii "XX", ascii "1", ascii "2", ascii "m"]).run
      collectionTable .bits).after .empty).lookup (ascii "g") = some ⟨⟨.zset [], .listpack⟩, none⟩ := by
  decide +kernel

end Gopherdis.Encoded
