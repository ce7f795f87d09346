/-
The commands on one collection are tidy: they keep the deadline of their key through every change of its
encoding, leave no collection without elements, and have changed nothing if they report an error. Each
follows the view of its key: what is looked up, changed, and dropped if it is empty.
-/
import Gopherdis.Encoded.Sees
import Gopherdis.Encoded.Sets
import Gopherdis.Encoded.SortedSets

namespace Gopherdis.Encoded

open Lib Codec Object Store Command List

variable {β : Type} {K : Kind β} {S : Settings} {c : Call} {db db' : MemDB} {key : Bytes} {now : Clock} {argv : Argv}
variable {w : View (Bytes × Score)}

/-! ## Shapes of handlers -/

variable {es : List (Edit β)}

lemma tidy_addTo {w : View β} (h : Sees K now db w db') (hes : (w.held.edited es).items ≠ [])
    {reply : View β → Bytes} (hok : ∀ w, succeeded (reply w) = true) :
    (w.performAll K S es >>= fun w' => (pure (reply w') : MemM S.E Bytes)).Ends db' (Tidy now db) := by
  refine (ends_performAll es h).bind fun w' db1 h1 => ?_
  obtain ⟨-, hheld, -, hsees, -⟩ := h1
  exact (hsees.neat fun _ => hheld ▸ hes).tidy (hok w')

lemma tidy_takeFrom {α : Type} {w : View β} (h : Sees K now db w db') {reply : View β → α}
    (bytes : α → Bytes) (hok : ∀ w, succeeded (bytes (reply w)) = true) :
    (w.performAll K S es >>= fun w' => w'.drop S c >>= fun _ => (pure (reply w') : MemM S.E α)).Ends db'
      fun a db'' => Tidy now db (bytes a) db'' := by
  refine (ends_performAll es h).bind fun w' db1 h1 => ?_
  obtain ⟨-, -, -, hsees, -⟩ := h1
  exact (ends_drop hsees c).bind fun _ _ h2 => h2.1.tidy (hok w')

/-! ## Lists -/

lemma pushEnd_ne_nil (val : Bytes) (side : ListEnd) (items : List Bytes) : pushEnd val side items ≠ [] := by
  cases side with
  | left => exact cons_ne_nil _ _
  | right => exact append_ne_nil_of_right_ne_nil _ (cons_ne_nil _ _)

variable (side : ListEnd)

lemma pushEdits_ne_nil (h : Held Bytes) (val : Bytes) :
    (h.edited (pushEdits S side h val)).items ≠ [] := by
  rw [edited_pushEdits]
  exact pushEnd_ne_nil val side h.items

lemma tidy_push (hargc : 3 ≤ argv.length) : (pushGeneric S c side argv).Ends db (Tidy c.now db) := by
  have hvals : argv.drop 2 ≠ [] := by simp; omega
  have hadd : ∀ h : Held Bytes, (h.edited (editAll (pushEdits S side) h (argv.drop 2))).items ≠ [] :=
    editAll_ne_nil (pushEdits_ne_nil side) hvals
  refine ends_getOrCreate_bind ?_ ?_ ?_
  · exact fun _ h _ => h.tidy _
  · exact fun _ _ _ hw => tidy_addTo hw (hadd _) fun _ => rfl
  · exact fun _ _ _ _ _ hw => tidy_addTo hw (hadd _) fun _ => rfl

lemma tidy_pushx (hargc : 3 ≤ argv.length) : (pushxGeneric S c side argv).Ends db (Tidy c.now db) := by
  have hvals : argv.drop 2 ≠ [] := by simp; omega
  refine ends_getView_bind ?_ ?_ ?_
  · exact fun _ h => h.tidy _
  · exact fun _ h _ => h.tidy _
  · exact fun _ _ _ _ _ hw => tidy_addTo hw (editAll_ne_nil (pushEdits_ne_nil side) hvals _) fun _ => rfl

lemma tidy_pop : (popGeneric S c side argv).Ends db (Tidy c.now db) := by
  refine ends_getView_bind ?_ ?_ ?_
  · exact fun _ h => h.tidy _
  · exact fun _ h _ => h.tidy _
  intro held _ db1 h _ hw
  simp only
  cases popEnd side held.items with
  | none => exact h.tidy _
  | some p =>
    refine (ends_perform hw (.inPlace p.2)).bind fun w' db2 h2 => ?_
    obtain ⟨-, -, -, hsees, -⟩ := h2
    exact (ends_drop hsees c).bind fun _ _ h3 => ⟨h3.1, Bool.noConfusion⟩

lemma lsetEdits_items (h : Held Bytes) (i : Int) (val : Bytes) :
    (h.edited (lsetEdits h i val).1).items.length = h.items.length ∧
      ((lsetEdits h i val).2 = false → (h.edited (lsetEdits h i val).1).items = h.items) := by
  have hpromote : ∀ p : Prop, [Decidable p] →
      (h.edited (if p then [.publish ⟨h.items, .quicklist⟩] else [])).items = h.items := by
    intro p _
    split_ifs <;> rfl
  unfold lsetEdits
  cases listIndex h.items.length i with
  | none => exact ⟨by rw [hpromote], fun _ => hpromote _⟩
  | some j =>
    refine ⟨?_, Bool.noConfusion⟩
    rw [edited_append]
    exact length_set

lemma tidy_lset : (lsetCommand S c argv).Ends db (Tidy c.now db) := by
  unfold lsetCommand
  cases parseInt (argv.getD 2 []) with
  | none => exact .refl c.now db _
  | some i =>
  refine ends_getView_bind ?_ ?_ ?_
  · exact fun _ h => h.tidy _
  · exact fun _ h _ => h.tidy _
  intro held exp db1 h hs hw
  obtain ⟨hlen, hsame⟩ := lsetEdits_items held i (argv.getD 3 [])
  refine (ends_performAll (lsetEdits held i (argv.getD 3 [])).1 hw).bind fun w' db2 h2 => ?_
  obtain ⟨hkey, hheld, hatt, hsees, hframe⟩ := h2
  refine ⟨hsees.neat fun hf => ?_, fun he => ?_⟩
  · rw [hkey] at hf
    have := items_ne_nil hs hf
    rw [hheld, ← length_pos_iff, hlen]
    exact length_pos_iff.2 this
  -- the error comes after the list was promoted, which shows in its encoding alone
  have hfound : (lsetEdits held i (argv.getD 3 [])).2 = false := by
    by_contra hf
    rw [Bool.not_eq_false] at hf
    rw [hf] at he
    exact Bool.noConfusion (show true = false from he)
  obtain ⟨_, _, _⟩ := w'
  cases hkey
  exact hsees.idle h hs (hatt rfl) ((congrArg Held.items hheld).trans (hsame hfound)) hframe

lemma neat_storeList (items : List Bytes) : (storeList S c key items).Ends db fun _ => Neat c.now db := by
  unfold storeList
  split_ifs with he
  · refine MemM.ends_del.bind fun _ db1 h1 => ?_
    intro k
    by_cases hk : k = key
    · rw [hk]
      exact .inr (.inl h1.here)
    · exact .inl (h1.frame k hk)
  have hitems : items ≠ [] := fun h => he (by rw [h]; rfl)
  have hput : ∀ {w : View Bytes} {db' : MemDB}, Sees listKind c.now db w db' →
      (w.perform listKind S (replaceAll S w.held items) >>= fun _ => (pure () : MemM S.E Unit)).Ends db'
        fun _ => Neat c.now db := by
    intro w db' hw
    refine (ends_perform hw _).bind fun w' db2 h2 => ?_
    obtain ⟨-, hheld, -, hsees, -⟩ := h2
    exact hsees.neat fun _ => by rw [hheld]; exact hitems
  refine ends_getOrCreate_bind ?_ ?_ ?_
  · exact fun _ h _ => h.neat
  · exact fun _ _ _ hw => hput hw
  · exact fun _ _ _ _ _ hw => hput hw

lemma tidy_rebuild (h : Looked c.now db key db') (items : List Bytes) {reply : Bytes} (hok : succeeded reply = true) :
    (storeList S c key items >>= fun _ => (pure reply : MemM S.E Bytes)).Ends db' (Tidy c.now db) :=
  (neat_storeList items).bind fun _ _ h1 => (Neat.of_looked h h1).tidy hok

lemma tidy_linsert : (linsertCommand S c argv).Ends db (Tidy c.now db) := by
  unfold linsertCommand
  dsimp only
  split_ifs
  · exact .refl c.now db _
  all_goals
    refine ends_getView_bind ?_ ?_ ?_
    · exact fun _ h => h.tidy _
    · exact fun _ h _ => h.tidy _
    intro held _ db1 h _ _
    simp only
    cases held.items.idxOf? (argv.getD 3 []) with
    | none => exact h.tidy _
    | some i => exact tidy_rebuild h _ rfl

lemma tidy_ltrim : (ltrimCommand S c argv).Ends db (Tidy c.now db) := by
  unfold ltrimCommand
  cases parseInt (argv.getD 2 []) with
  | none => exact .refl c.now db _
  | some start =>
  cases parseInt (argv.getD 3 []) with
  | none => exact .refl c.now db _
  | some stop =>
    refine ends_getView_bind ?_ ?_ ?_
    · exact fun _ h => h.tidy _
    · exact fun _ h _ => h.tidy _
    · exact fun _ _ _ h _ _ => tidy_rebuild h _ rfl

lemma tidy_lrem : (lremCommand S c argv).Ends db (Tidy c.now db) := by
  unfold lremCommand
  cases parseInt (argv.getD 2 []) with
  | none => exact .refl c.now db _
  | some count =>
  refine ends_getView_bind ?_ ?_ ?_
  · exact fun _ h => h.tidy _
  · exact fun _ h _ => h.tidy _
  · intro held _ db1 h _ _
    simp only
    split_ifs
    all_goals first | exact h.tidy _ | exact tidy_rebuild h _ rfl

/-! ## Hashes -/

lemma hashSet_ne_nil (es : List (Bytes × Bytes)) (f v : Bytes) : hashSet es f v ≠ [] := by
  unfold hashSet
  split_ifs with h
  · intro hnil
    rw [map_eq_nil_iff] at hnil
    rw [hnil] at h
    cases h
  · exact append_ne_nil_of_right_ne_nil _ (cons_ne_nil _ _)

lemma hashSetEdits_ne_nil (h : Held (Bytes × Bytes)) (e : Bytes × Bytes) :
    (h.edited (hashSetEdits S h e)).items ≠ [] := by
  rw [hashSetEdits, edited_append]
  exact hashSet_ne_nil h.items e.1 e.2

lemma pairUp_ne_nil (hargc : 4 ≤ argv.length) : pairUp (argv.drop 2) ≠ [] := by
  obtain _ | ⟨_, _ | ⟨_, _ | ⟨_, _ | ⟨_, _⟩⟩⟩⟩ := argv
  all_goals first | exact cons_ne_nil _ _ | simp at hargc

lemma tidy_hsetGeneric (name : String) (hargc : 4 ≤ argv.length) :
    (hsetGeneric S c name argv).Ends db (Tidy c.now db) := by
  unfold hsetGeneric
  split_ifs
  · exact .refl c.now db _
  have hadd : ∀ h : Held (Bytes × Bytes), (h.edited (editAll (hashSetEdits S) h (pairUp (argv.drop 2)))).items ≠ [] :=
    editAll_ne_nil hashSetEdits_ne_nil (pairUp_ne_nil hargc)
  refine ends_getOrCreate_bind ?_ ?_ ?_
  · exact fun _ h _ => h.tidy _
  · exact fun _ _ _ hw => tidy_addTo hw (hadd _) fun _ => rfl
  · exact fun _ _ _ _ _ hw => tidy_addTo hw (hadd _) fun _ => rfl

lemma tidy_hmset (hargc : 4 ≤ argv.length) : (hmsetCommand S c argv).Ends db (Tidy c.now db) := by
  refine (tidy_hsetGeneric "hmset" hargc).bind fun reply db1 h1 => ⟨h1.neat, fun he => h1.idle ?_⟩
  by_contra hok
  rw [Bool.not_eq_false] at hok
  simp [hok] at he

lemma tidy_hsetnx : (hsetnxCommand S c argv).Ends db (Tidy c.now db) := by
  refine ends_getOrCreate_bind ?_ ?_ ?_
  · exact fun _ h _ => h.tidy _
  · exact fun _ _ _ hw => tidy_addTo hw (hashSetEdits_ne_nil _ _) fun _ => rfl
  intro held _ db1 h _ hw
  simp only
  split_ifs
  · exact h.tidy _
  · exact tidy_addTo hw (hashSetEdits_ne_nil _ _) fun _ => rfl

lemma tidy_hdel : (hdelCommand S c argv).Ends db (Tidy c.now db) := by
  refine ends_getView_bind ?_ ?_ ?_
  · exact fun _ h => h.tidy _
  · exact fun _ h _ => h.tidy _
  · exact fun _ _ _ _ _ hw => tidy_takeFrom hw id fun _ => rfl

lemma addOverflows_zero {b : Bytes} {n : Int} (h : parseInt b = some n) : addOverflows 0 n = false := by
  obtain ⟨hlo, hhi⟩ := parseInt_inInt64 h
  simp only [addOverflows, Bool.or_eq_false_iff, Bool.and_eq_false_iff, decide_eq_false_iff_not]
  omega

lemma tidy_hincrby : (hincrbyCommand S c argv).Ends db (Tidy c.now db) := by
  unfold hincrbyCommand
  cases hn : parseInt (argv.getD 3 []) with
  | none => exact .refl c.now db _
  | some incr =>
  refine ends_getOrCreate_bind ?_ ?_ ?_
  · exact fun _ h _ => h.tidy _
  · intro attached db1 _ hw
    simp only [show hashGet ([] : List (Bytes × Bytes)) (argv.getD 2 []) = none from rfl, Option.elim_none,
      addOverflows_zero hn, Bool.false_eq_true, if_false]
    exact tidy_addTo hw (hashSetEdits_ne_nil _ _) fun _ => rfl
  intro held _ db1 h _ hw
  simp only
  cases (hashGet held.items (argv.getD 2 [])).elim (some 0) parseInt with
  | none => exact h.tidy _
  | some current =>
    simp only
    split_ifs
    · exact h.tidy _
    · exact tidy_addTo hw (hashSetEdits_ne_nil _ _) fun _ => rfl

lemma tidy_hincrbyfloat : (hincrbyfloatCommand S c argv).Ends db (Tidy c.now db) := by
  unfold hincrbyfloatCommand
  obtain ⟨delta, fine⟩ := S.E.parseFloat (argv.getD 3 [])
  simp only
  split_ifs with hdelta
  · exact .refl c.now db _
  rw [not_or, not_or] at hdelta
  refine ends_getOrCreate_bind ?_ ?_ ?_
  · exact fun _ h _ => h.tidy _
  · intro attached db1 _ hw
    -- zero and the increment add up to a number, as the increment is one
    have hsum : ¬ (S.E.isNaN (S.E.scoreAdd S.out.zero delta) ∨ S.out.isInf (S.E.scoreAdd S.out.zero delta)) := by
      rw [S.out.isNaN_zero_add, S.out.isInf_zero_add, not_or]
      exact hdelta.2
    simp only [show hashGet ([] : List (Bytes × Bytes)) (argv.getD 2 []) = none from rfl, Option.elim_none,
      not_true_eq_false, if_false, if_neg hsum]
    exact tidy_addTo hw (hashSetEdits_ne_nil _ _) fun _ => succeeded_double _
  · intro held _ db1 h _ hw
    simp only
    split_ifs
    all_goals first
      | exact h.tidy _
      | exact tidy_addTo hw (hashSetEdits_ne_nil _ _) fun _ => succeeded_double _

/-! ## Sets -/

lemma setAddEdits_ne_nil (h : Held Bytes) (m : Bytes) : (h.edited (setAddEdits S h m)).items ≠ [] := by
  have happend : h.items ++ [m] ≠ [] := append_ne_nil_of_right_ne_nil _ (cons_ne_nil _ _)
  unfold setAddEdits
  split_ifs with hm
  · exact ne_nil_of_mem hm
  all_goals cases h.enc <;> exact happend

lemma tidy_sadd (hargc : 3 ≤ argv.length) : (saddCommand S c argv).Ends db (Tidy c.now db) := by
  have hmembers : argv.drop 2 ≠ [] := by simp; omega
  have hadd : ∀ h : Held Bytes, (h.edited (editAll (setAddEdits S) h (argv.drop 2))).items ≠ [] :=
    editAll_ne_nil setAddEdits_ne_nil hmembers
  refine ends_getOrCreate_bind ?_ ?_ ?_
  · exact fun _ h _ => h.tidy _
  · exact fun _ _ _ hw => tidy_addTo hw (hadd _) fun _ => rfl
  · exact fun _ _ _ _ _ hw => tidy_addTo hw (hadd _) fun _ => rfl

lemma tidy_srem : (sremCommand S c argv).Ends db (Tidy c.now db) := by
  refine ends_getView_bind ?_ ?_ ?_
  · exact fun _ h => h.tidy _
  · exact fun _ h _ => h.tidy _
  · exact fun _ _ _ _ _ hw => tidy_takeFrom hw id fun _ => rfl

lemma succeeded_setReply (elements : List Bytes) : succeeded (setReply c elements) = true := by
  unfold setReply
  split_ifs <;> rfl

lemma tidy_spop : (spopCommand S c argv).Ends db fun a db' => Tidy c.now db a.reply db' := by
  unfold spopCommand
  cases spopCount argv with
  | error e => exact .refl c.now db _
  | ok count =>
  refine ends_getView_bind ?_ ?_ ?_
  · exact fun _ h => h.tidy _
  · exact fun _ h _ => h.tidy _
  intro held _ db1 h _ hw
  refine tidy_takeFrom hw _ fun w => ?_
  split_ifs
  · cases ((c.walk held.items).take count.toNat).head? with
    | none => exact succeeded_null _
    | some m => rfl
  · exact succeeded_setReply _

/-! ## Sorted sets -/

lemma zInsert_ne_nil (e : Bytes × Score) (es : List (Bytes × Score)) : zInsert S.E e es ≠ [] := by
  intro h
  have := (zInsert_perm (E := S.E) e es).length_eq
  rw [h] at this
  cases this

lemma zPlaceEdits_ne_nil (h : Held (Bytes × Score)) (enc : Encoding) (e : Bytes × Score) :
    (h.edited (zPlaceEdits S enc h.items e)).items ≠ [] := by
  unfold zPlaceEdits
  cases hs : zScore h.items e.1 with
  | none => exact zInsert_ne_nil e h.items
  | some old =>
  have hitems : h.items ≠ [] := by
    intro hnil
    rw [hnil] at hs
    cases hs
  simp only
  split_ifs
  all_goals first | exact hitems | exact zInsert_ne_nil _ _

lemma zAddEdits_ne_nil (h : Held (Bytes × Score)) (e : Bytes × Score) : (h.edited (zAddEdits S h e)).items ≠ [] := by
  unfold zAddEdits
  split_ifs
  · exact zPlaceEdits_ne_nil ⟨h.items, .skiplist⟩ .skiplist e
  · exact zPlaceEdits_ne_nil h h.enc e

lemma zaddEdits_keeps (o : ZaddOpts) (h : Held (Bytes × Score)) (e : Bytes × Score) (hh : h.items ≠ []) :
    (h.edited (zaddEdits S o h e)).items ≠ [] := by
  unfold zaddEdits
  split_ifs
  · exact hh
  · exact zAddEdits_ne_nil h e

lemma tidy_zaddIncr_new (hw : Sees zsetKind c.now db w db') (hnil : w.held.items = [])
    (o : ZaddOpts) (member : Bytes) (delta : Score) :
    (zaddIncr S c o w true member delta).Ends db' (Tidy c.now db) := by
  have hcur : zScore w.held.items member = none := by
    rw [hnil]
    rfl
  have hdrop : (dropIfCreated S c w true >>= fun _ => (pure nullBulkString : MemM S.E Bytes)).Ends db' (Tidy c.now db) :=
    (ends_drop hw c).bind fun _ _ h => h.1.tidy rfl
  unfold zaddIncr
  simp only [hcur]
  split_ifs with h1 h2
  · exact hdrop
  · exact absurd h2.1 (by simp)
  · exact hdrop
  · exact tidy_addTo hw (zAddEdits_ne_nil _ _) fun _ => rfl

lemma tidy_zaddIncr_old (hw : Sees zsetKind c.now db w db')
    (h : Looked c.now db key db') (o : ZaddOpts) (member : Bytes) (delta : Score) :
    (zaddIncr S c o w false member delta).Ends db' (Tidy c.now db) := by
  unfold zaddIncr
  simp only
  split_ifs
  iterate 3 exact h.tidy _
  · exact tidy_addTo hw (zAddEdits_ne_nil _ _) fun _ => rfl

lemma tidy_zadd : (zaddCommand S c argv).Ends db (Tidy c.now db) := by
  unfold zaddCommand
  cases zaddArgs S argv with
  | error e => exact .refl c.now db _
  | ok r =>
  obtain ⟨o, scores⟩ := r
  refine ends_getOrCreate_bind ?_ ?_ ?_
  · exact fun _ h _ => h.tidy _
  · intro attached db1 _ hw
    cases o.incr with
    | false => exact tidy_takeFrom hw id fun _ => rfl
    | true =>
      cases scores with
      | nil => exact tidy_takeFrom hw id fun _ => rfl
      | cons e scores => exact tidy_zaddIncr_new hw rfl o e.1 e.2
  intro held _ db1 h hs hw
  have hplain : ∀ scores (reply : View (Bytes × Score) → Bytes), (∀ w, succeeded (reply w) = true) →
      ((⟨argv.getD 1 [], held, true⟩ : View (Bytes × Score)).performAll zsetKind S
        (editAll (zaddEdits S o) held scores) >>= fun w' => (pure (reply w') : MemM S.E Bytes)).Ends db1
        (Tidy c.now db) := by
    intro scores reply hok
    refine (ends_performAll _ hw).bind fun w' db2 h2 => ?_
    obtain ⟨hkey, hheld, -, hsees, -⟩ := h2
    refine (hsees.neat fun hf => ?_).tidy (hok w')
    rw [hkey] at hf
    rw [hheld]
    exact editAll_keeps (zaddEdits_keeps o) scores held (items_ne_nil hs hf)
  cases o.incr with
  | false => exact hplain scores _ fun _ => rfl
  | true =>
    cases scores with
    | nil => exact hplain [] _ fun _ => rfl
    | cons e scores => exact tidy_zaddIncr_old hw h o e.1 e.2

lemma tidy_zincrby : (zincrbyCommand S c argv).Ends db (Tidy c.now db) := by
  unfold zincrbyCommand
  obtain ⟨delta, fine⟩ := S.E.parseFloat (argv.getD 2 [])
  simp only
  split_ifs with hdelta
  · exact .refl c.now db _
  rw [not_or] at hdelta
  refine ends_getOrCreate_bind ?_ ?_ ?_
  · exact fun _ h _ => h.tidy _
  · intro attached db1 _ hw
    have hsum : ¬ S.E.isNaN (S.E.scoreAdd S.out.zero delta) = true := by
      rw [S.out.isNaN_zero_add]
      exact hdelta.2
    simp only [show zScore ([] : List (Bytes × Score)) (argv.getD 3 []) = none from rfl, Option.getD_none, if_neg hsum]
    exact tidy_addTo hw (zAddEdits_ne_nil _ _) fun _ => succeeded_double _
  · intro held _ db1 h _ hw
    simp only
    split_ifs
    · exact h.tidy _
    · exact tidy_addTo hw (zAddEdits_ne_nil _ _) fun _ => succeeded_double _

lemma tidy_zremoveAll_none (h : Looked c.now db key db') (hs : db.live key c.now.ms = none) (members : List Bytes)
    (reply : Bytes) :
    (zremoveAll S c key none members >>= fun _ => (pure reply : MemM S.E Bytes)).Ends db' (Tidy c.now db) := by
  rw [zremoveAll, bind_assoc]
  refine MemM.ends_del.bind fun _ db1 h1 => ?_
  have hlooked : Looked c.now db key db1 :=
    ⟨h1.here.trans hs.symm, fun k hk => (h1.frame k hk).trans (h.frame k hk)⟩
  exact hlooked.tidy reply

lemma tidy_zremoveAll_some (hw : Sees zsetKind c.now db w db') (key : Bytes)
    (members : List Bytes) {reply : Bytes} (hok : succeeded reply = true) :
    (zremoveAll S c key (some w) members >>= fun _ => (pure reply : MemM S.E Bytes)).Ends db' (Tidy c.now db) := by
  rw [zremoveAll, bind_assoc]
  exact tidy_takeFrom hw id fun _ => hok

lemma tidy_zrem : (zremCommand S c argv).Ends db (Tidy c.now db) := by
  refine ends_getView_bind ?_ ?_ ?_
  · exact fun _ h => h.tidy _
  · exact fun _ h hs => tidy_zremoveAll_none h hs _ _
  · exact fun _ _ _ _ _ hw => tidy_zremoveAll_some hw _ _ rfl

lemma tidy_zpop (reverse : Bool) : (zpopGeneric S c reverse argv).Ends db (Tidy c.now db) := by
  unfold zpopGeneric
  cases zpopCount argv with
  | none => exact .refl c.now db _
  | some count =>
  refine ends_getView_bind ?_ ?_ ?_
  · exact fun _ h => h.tidy _
  · exact fun _ h _ => h.tidy _
  · refine fun _ _ _ _ _ hw => tidy_zremoveAll_some hw _ _ ?_
    unfold zsetReply
    split_ifs <;> rfl

lemma tidy_zremrange (select : List (Bytes × Score) → List (Bytes × Score)) :
    (zremrange S c select key).Ends db (Tidy c.now db) := by
  refine ends_getView_bind ?_ ?_ ?_
  · exact fun _ h => h.tidy _
  · exact fun _ h hs => tidy_zremoveAll_none h hs _ _
  · exact fun _ _ _ _ _ hw => tidy_zremoveAll_some hw _ _ rfl

end Gopherdis.Encoded
