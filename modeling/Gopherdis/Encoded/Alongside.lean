/-
Two servers without a limit, side by side. At the clock readings of their own they show the same, and what the one
shows when the other's clock has come round is the same too; a command that is run on both leaves them so.
-/
import Gopherdis.Encoded.Unlimited
import Gopherdis.Encoded.Sees

namespace Gopherdis.Encoded

open Lib Codec Object Store Command Traced MemM Option

variable {w : View (Bytes × Score)}

/-! ## What is shown -/

/-- An object and its deadline, unless it is past it. -/
def shownSlot (ms : Int) (s : Option Slot) : Option (Robj × Int) :=
  (s.filter fun s => !s.expired ms).map fun s => (s.obj, deadline s)

/-- What a key shows at a time. -/
def shown (db : MemDB) (key : Bytes) (ms : Int) : Option (Robj × Int) := shownSlot ms (db.lookup key)

section
variable {ms ms' : Int} {s s' : Slot}

lemma expired_eq (s : Slot) (ms : Int) : s.expired ms = (decide (deadline s ≠ 0) && decide (deadline s ≤ ms)) := by
  unfold Slot.expired deadline
  cases s.exp <;> rfl

lemma expired_congr (h : deadline s = deadline s') (ms : Int) : s.expired ms = s'.expired ms := by
  rw [expired_eq, expired_eq, h]

lemma shownSlot_some (h : s.expired ms = false) : shownSlot ms (some s) = some (s.obj, deadline s) := by
  rw [shownSlot, filter_some, h]
  rfl

lemma shownSlot_expired (h : s.expired ms = true) : shownSlot ms (some s) = none := by
  rw [shownSlot, filter_some, h]
  rfl

lemma shownSlot_congr (hobj : s.obj = s'.obj) (hd : deadline s = deadline s') (ms : Int) :
    shownSlot ms (some s) = shownSlot ms (some s') := by
  cases hx : s'.expired ms with
  | true => rw [shownSlot_expired hx, shownSlot_expired ((expired_congr hd ms).trans hx)]
  | false => rw [shownSlot_some hx, shownSlot_some ((expired_congr hd ms).trans hx), hobj, hd]

lemma shownSlot_later (hle : ms ≤ ms') (s : Option Slot) :
    shownSlot ms' s = (shownSlot ms s).filter fun p => !(decide (p.2 ≠ 0) && decide (p.2 ≤ ms')) := by
  rcases s with _ | s
  · rfl
  cases hx : s.expired ms with
  | true =>
    have hx' : s.expired ms' = true := by
      rw [expired_eq] at hx ⊢
      simp only [Bool.and_eq_true, decide_eq_true_eq] at hx ⊢
      exact ⟨hx.1, hx.2.trans hle⟩
    rw [shownSlot_expired hx, shownSlot_expired hx']
    rfl
  | false =>
    rw [shownSlot_some hx, filter_some, ← expired_eq]
    cases hx' : s.expired ms' with
    | true => exact shownSlot_expired hx'
    | false => exact shownSlot_some hx'

end

/-! ## Side by side -/

/-- The one shows at `ms` what the other shows at `ms'`, and at `ms'` as well. -/
structure Beside (ms ms' : Int) (db db' : MemDB) : Prop where
  now : ∀ k, shown db k ms = shown db' k ms'
  later : ∀ k, shown db k ms' = shown db' k ms'

/-- Besides, what a key holds has not run out. -/
structure BesideAt (ms ms' : Int) (key : Bytes) (db db' : MemDB) : Prop extends Beside ms ms' db db' where
  fresh : ∀ s, db.lookup key = some s → s.expired ms = false
  fresh' : ∀ s, db'.lookup key = some s → s.expired ms' = false

section
variable {ms ms' : Int} {key : Bytes} {db db' d d' : MemDB}

lemma shown_change {s s' : Option Slot} (h : ∀ k, shown db k ms = shown db' k ms') (hl : Leaves db key d s)
    (hl' : Leaves db' key d' s') (hs : shownSlot ms s = shownSlot ms' s') (k : Bytes) : shown d k ms = shown d' k ms' := by
  unfold shown
  by_cases hk : k = key
  · rw [hk, hl.here, hl'.here, hs]
  · rw [hl.frame k hk, hl'.frame k hk]
    exact h k

lemma Beside.change {s s' : Option Slot} (h : Beside ms ms' db db') (hl : Leaves db key d s) (hl' : Leaves db' key d' s')
    (hnow : shownSlot ms s = shownSlot ms' s') (hlater : shownSlot ms' s = shownSlot ms' s') : Beside ms ms' d d' :=
  ⟨shown_change h.now hl hl' hnow, shown_change h.later hl hl' hlater⟩

lemma Beside.gone (h : Beside ms ms' db db') (hl : Leaves db key d none) (hl' : Leaves db' key d' none) :
    BesideAt ms ms' key d d' where
  toBeside := h.change hl hl' rfl rfl
  fresh s hs := by
    rw [hl.here] at hs
    cases hs
  fresh' s hs := by
    rw [hl'.here] at hs
    cases hs

lemma Beside.give {t t' : Slot} (h : Beside ms ms' db db') (hl : Leaves db key d (some t))
    (hl' : Leaves db' key d' (some t'))
    (hobj : t.obj = t'.obj) (hd : deadline t = deadline t') (hx : t.expired ms = false) (hx' : t'.expired ms' = false) :
    BesideAt ms ms' key d d' where
  toBeside := by
    refine h.change hl hl' ?_ (shownSlot_congr hobj hd ms')
    rw [shownSlot_some hx, shownSlot_some hx', hobj, hd]
  fresh s hs := by
    rw [hl.here] at hs
    cases hs
    exact hx
  fresh' s hs := by
    rw [hl'.here] at hs
    cases hs
    exact hx'

lemma BesideAt.cases (h : BesideAt ms ms' key db db') : (db.lookup key = none ∧ db'.lookup key = none) ∨
      ∃ s s', db.lookup key = some s ∧ db'.lookup key = some s' ∧ s.obj = s'.obj ∧ deadline s = deadline s' := by
  have hnow := h.now key
  unfold shown at hnow
  cases hs : db.lookup key with
  | none =>
    cases hs' : db'.lookup key with
    | none => exact .inl ⟨rfl, rfl⟩
    | some s' =>
      rw [hs, hs', shownSlot_some (h.fresh' s' hs')] at hnow
      cases hnow
  | some s =>
  rw [hs, shownSlot_some (h.fresh s hs)] at hnow
  cases hs' : db'.lookup key with
  | none =>
    rw [hs'] at hnow
    cases hnow
  | some s' =>
    rw [hs', shownSlot_some (h.fresh' s' hs')] at hnow
    obtain ⟨hobj, hd⟩ := Prod.mk.inj (some.inj hnow)
    exact .inr ⟨s, s', rfl, rfl, hobj, hd⟩

end

/-! ## The methods -/

section
variable {E : Env} {sv : Store.Server} {now now' : Clock} {key : Bytes} {obj : Robj} {db db' : MemDB}

section
variable (h : Beside now.ms now'.ms db db')
include h

lemma Beside.live_cases (key : Bytes) : (db.live key now.ms = none ∧ db'.live key now'.ms = none) ∨
      ∃ s s', db.live key now.ms = some s ∧ db'.live key now'.ms = some s' ∧ s.obj = s'.obj ∧ deadline s = deadline s' := by
  have hnow : (db.live key now.ms).map _ = (db'.live key now'.ms).map _ := h.now key
  cases hs : db.live key now.ms with
  | none =>
    rw [hs] at hnow
    exact .inl ⟨rfl, map_eq_none_iff.1 hnow.symm⟩
  | some s =>
    rw [hs] at hnow
    obtain ⟨s', hs', heq⟩ := map_eq_some_iff.1 hnow.symm
    obtain ⟨hobj, hd⟩ := Prod.mk.inj heq
    exact .inr ⟨s, s', rfl, hs', hobj.symm, hd.symm⟩

lemma both_get :
    Both (get now key : MemM E _) (get now' key) db db' fun _ d d' => BesideAt now.ms now'.ms key d d' := by
  refine both_of_ends ends_get ends_get ?_
  rintro r d r' d' ⟨rfl, hl⟩ ⟨rfl, hl'⟩
  rcases h.live_cases key with ⟨hn, hn'⟩ | ⟨s, s', hs, hs', hobj, hd⟩
  · rw [hn] at hl ⊢
    rw [hn'] at hl' ⊢
    exact ⟨rfl, h.gone hl hl'⟩
  have hx := (MemDB.live_eq_some.1 hs).2
  have hx' := (MemDB.live_eq_some.1 hs').2
  rw [hs] at hl ⊢
  rw [hs'] at hl' ⊢
  exact ⟨congrArg some hobj.symm, h.give hl hl' hobj hd hx hx'⟩

lemma both_set : Both (MemM.set sv.unlimited key obj : MemM E _) (MemM.set sv.unlimited key obj) db db' fun _ d d' =>
      BesideAt now.ms now'.ms key d d' := by
  have hafter : ∀ db, (MemM.set sv.unlimited key obj : MemM E _).Ends db fun r d =>
      r = true ∧ Leaves db key d (some ⟨obj, none⟩) := by
    intro db
    unfold MemM.set Traced.Ends result after ops
    exact ⟨rfl, leaves_replace db key _⟩
  refine both_of_ends (hafter db) (hafter db') ?_
  rintro r d r' d' ⟨rfl, hl⟩ ⟨rfl, hl'⟩
  exact ⟨rfl, h.give hl hl' rfl rfl rfl rfl⟩

end

lemma both_edit (h : BesideAt now.ms now'.ms key db db') :
    Both (perform (.edit key obj) : MemM E Unit) (perform (.edit key obj)) db db' fun _ d d' =>
      BesideAt now.ms now'.ms key d d' := by
  refine ⟨rfl, ?_⟩
  have hl : Leaves db key ((MemOp.edit key obj).apply E db) _ := leaves_edit db key obj
  have hl' : Leaves db' key ((MemOp.edit key obj).apply E db') _ := leaves_edit db' key obj
  rcases h.cases with ⟨hn, hn'⟩ | ⟨s, s', hs, hs', -, hd⟩
  · rw [hn] at hl
    rw [hn'] at hl'
    exact h.toBeside.gone hl hl'
  rw [hs] at hl
  rw [hs'] at hl'
  exact h.toBeside.give hl hl' rfl hd (h.fresh s hs) (h.fresh' s' hs')

lemma both_publish (h : BesideAt now.ms now'.ms key db db') :
    Both (setKeepTTL key obj : MemM E Unit) (setKeepTTL key obj) db db' fun _ d d' =>
      BesideAt now.ms now'.ms key d d' := by
  refine ⟨rfl, ?_⟩
  have hl : Leaves db key ((MemOp.publish key obj).apply E db) _ := leaves_replace db key _
  have hl' : Leaves db' key ((MemOp.publish key obj).apply E db') _ := leaves_replace db' key _
  rcases h.cases with ⟨hn, hn'⟩ | ⟨s, s', hs, hs', -, hd⟩
  · rw [hn] at hl
    rw [hn'] at hl'
    exact h.toBeside.give hl hl' rfl rfl rfl rfl
  rw [hs] at hl
  rw [hs'] at hl'
  exact h.toBeside.give hl hl' rfl hd (h.fresh s hs) (h.fresh' s' hs')

lemma ends_del_live : (del now key : MemM E _).Ends db fun r d =>
    r = (db.live key now.ms).isSome ∧ Leaves db key d none := by
  refine And.intro ?_ ends_del
  have hread : (del now key : MemM E _).Ends db fun r _ => r = (db.live key now.ms).isSome := by
    refine ends_read_bind ?_
    split_ifs with h
    · rw [live_of_isExpired h]
      exact rfl
    rw [live_of_not_isExpired h]
    refine ends_read_bind ?_
    split_ifs with hs
    · exact hs.symm
    · exact (Bool.eq_false_iff.2 hs).symm
  exact hread

lemma both_del (h : Beside now.ms now'.ms db db') :
    Both (del now key : MemM E _) (del now' key) db db' fun _ d d' => Beside now.ms now'.ms d d' := by
  refine both_of_ends ends_del_live ends_del_live ?_
  rintro r d r' d' ⟨rfl, hl⟩ ⟨rfl, hl'⟩
  refine ⟨?_, (h.gone hl hl').toBeside⟩
  rcases h.live_cases key with ⟨hn, hn'⟩ | ⟨s, s', hs, hs', -⟩
  · rw [hn, hn']
  · rw [hs, hs']
    rfl

end

/-! ## The handlers -/

section
variable {β : Type} {S : Settings} {sv : Store.Server} {c c' : Call} {key : Bytes} {db db' : MemDB} {argv : Argv}

lemma both_perform (K : Kind β) {w : View β} (h : BesideAt c.now.ms c'.now.ms w.key db db') (e : Edit β) :
    Both (w.perform K S e) (w.perform K S e) db db' fun w' d d' =>
      w'.key = w.key ∧ BesideAt c.now.ms c'.now.ms w.key d d' := by
  cases e with
  | inPlace items =>
    unfold View.perform
    split_ifs
    · exact (both_edit h).bind fun _ _ _ h => both_pure ⟨rfl, h⟩
    · exact both_pure ⟨rfl, h⟩
  | publish held => exact (both_publish h).bind fun _ _ _ h => both_pure ⟨rfl, h⟩

lemma both_performAll (K : Kind β) : ∀ (es : List (Edit β)) {w : View β} {db db' : MemDB},
    BesideAt c.now.ms c'.now.ms w.key db db' → Both (w.performAll K S es) (w.performAll K S es) db db' fun w' d d' =>
      w'.key = w.key ∧ BesideAt c.now.ms c'.now.ms w.key d d'
  | [], _, _, _, h => both_pure ⟨rfl, h⟩
  | e :: es, w, _, _, h => by
    refine (both_perform K h e).bind fun w1 d d' h1 => ?_
    obtain ⟨hkey, h1⟩ := h1
    rw [← hkey] at h1 ⊢
    exact both_performAll K es h1

lemma both_getOrCreate_bind {α : Type} {K : Kind β} {Q : α → MemDB → MemDB → Prop}
    {f f' : Except Bytes (View β × Bool) → MemM S.E α} (h : Beside c.now.ms c'.now.ms db db')
    (herror : ∀ e d d', Beside c.now.ms c'.now.ms d d' → Both (f (.error e)) (f' (.error e)) d d' Q)
    (hview : ∀ w created d d', BesideAt c.now.ms c'.now.ms w.key d d' →
      Both (f (.ok (w, created))) (f' (.ok (w, created))) d d' Q) :
    Both (getOrCreate K (S.under sv.unlimited) c key >>= f) (getOrCreate K (S.under sv.unlimited) c' key >>= f') db db' Q := by
  have hget : Both (getOrCreate K (S.under sv.unlimited) c key) (getOrCreate K (S.under sv.unlimited) c' key) db db'
      fun r d d' => BesideAt c.now.ms c'.now.ms key d d' ∧ ∀ p, r = .ok p → p.1.key = key := by
    refine (both_get h).bind fun r d d' h1 => ?_
    cases r with
    | none =>
      refine (both_set h1.toBeside).bind fun stored d d' h2 => both_pure ⟨h2, fun p hp => ?_⟩
      cases hp
      rfl
    | some o =>
    refine both_pure ⟨h1, fun p hp => ?_⟩
    rcases viewOf_cases key o with ⟨-, hw⟩ | ⟨held, -, hw⟩
    · rw [hw] at hp
      cases hp
    rw [hw] at hp
    cases hp
    rfl
  refine hget.bind fun r d d' hr => ?_
  obtain ⟨h1, hkey⟩ := hr
  rcases r with e | ⟨w, created⟩
  · exact herror e d d' h1.toBeside
  have hw : w.key = key := hkey (w, created) rfl
  rw [← hw] at h1
  exact hview w created d d' h1

/-- Run on both sides, the command leaves them side by side. -/
def Steady (f : (S : Settings) → Call → Argv → MemM S.E Bytes) : Prop :=
  ∀ {S : Settings} {sv : Store.Server} {c c' : Call} {argv : Argv} {db db' : MemDB}, Beside c.now.ms c'.now.ms db db' →
    Both (f (S.under sv.unlimited) c argv) (f (S.under sv.unlimited) c' argv) db db' fun _ d d' =>
      Beside c.now.ms c'.now.ms d d'

lemma both_setAll : ∀ (pairs : List (Bytes × Bytes)) {db db' : MemDB}, Beside c.now.ms c'.now.ms db db' →
    Both (setAll (S.under sv.unlimited) pairs) (setAll (S.under sv.unlimited) pairs) db db' fun _ d d' =>
      Beside c.now.ms c'.now.ms d d'
  | [], _, _, h => both_pure h
  | _ :: pairs, _, _, h => (both_set h).bind fun _ _ _ h1 => both_setAll pairs h1.toBeside

lemma steady_mset : Steady msetCommand := by
  intro S sv c c' argv db db' h
  unfold msetCommand
  split_ifs
  · exact both_pure h
  · exact (both_setAll _ h).bind fun _ _ _ h1 => both_pure h1

lemma both_getString (h : Beside c.now.ms c'.now.ms db db') :
    Both (getString S c key) (getString S c' key) db db' fun _ d d' => Beside c.now.ms c'.now.ms d d' := by
  refine (both_get h).bind fun r d d' h1 => ?_
  cases r with
  | none | some => exact both_pure h1.toBeside

lemma steady_incr : Steady incrCommand := by
  intro S sv c c' argv db db' h
  refine (both_getString h).bind fun r d d' h1 => ?_
  cases r with
  | error e => exact both_pure h1
  | ok old =>
  dsimp only
  cases old.elim (some 0) fun b => parseInt b.1 with
  | none => exact both_pure h1
  | some current =>
    dsimp only
    split_ifs
    · exact both_pure h1
    · exact (both_set h1).bind fun _ _ _ h2 => both_pure h2.toBeside

lemma steady_append : Steady appendCommand := by
  intro S sv c c' argv db db' h
  refine (both_getString h).bind fun r d d' h1 => ?_
  cases r with
  | error e => exact both_pure h1
  | ok old => exact (both_set h1).bind fun _ _ _ h2 => both_pure h2.toBeside

lemma steady_hset : Steady hsetCommand := by
  intro S sv c c' argv db db' h
  unfold hsetCommand hsetGeneric
  split_ifs
  · exact both_pure h
  · refine both_getOrCreate_bind h (fun _ _ _ h1 => both_pure h1) fun w created d d' h1 => ?_
    exact (both_performAll hashKind _ h1).bind fun _ _ _ h2 => both_pure h2.2.toBeside

lemma steady_rpush : Steady rpushCommand := by
  intro S sv c c' argv db db' h
  refine both_getOrCreate_bind h (fun _ _ _ h1 => both_pure h1) fun w created d d' h1 => ?_
  exact (both_performAll listKind _ h1).bind fun _ _ _ h2 => both_pure h2.2.toBeside

lemma steady_sadd : Steady saddCommand := by
  intro S sv c c' argv db db' h
  refine both_getOrCreate_bind h (fun _ _ _ h1 => both_pure h1) fun w created d d' h1 => ?_
  exact (both_performAll setKind _ h1).bind fun _ _ _ h2 => both_pure h2.2.toBeside

lemma both_dropIfCreated (created : Bool) (h : Beside c.now.ms c'.now.ms db db') :
    Both (dropIfCreated S c w created) (dropIfCreated S c' w created) db db' fun _ d d' =>
      Beside c.now.ms c'.now.ms d d' := by
  unfold dropIfCreated View.drop
  split_ifs
  · exact (both_del h).bind fun _ _ _ h1 => both_pure h1
  all_goals exact both_pure h

lemma both_zaddIncr (o : ZaddOpts) (created : Bool) (member : Bytes) (delta : Score)
    (h : BesideAt c.now.ms c'.now.ms w.key db db') :
    Both (zaddIncr S c o w created member delta) (zaddIncr S c' o w created member delta) db db' fun _ d d' =>
      Beside c.now.ms c'.now.ms d d' := by
  unfold zaddIncr
  dsimp only
  split_ifs
  · exact (both_dropIfCreated created h.toBeside).bind fun _ _ _ h1 => both_pure h1
  · exact both_pure h.toBeside
  · exact (both_dropIfCreated created h.toBeside).bind fun _ _ _ h1 => both_pure h1
  · exact (both_performAll zsetKind _ h).bind fun _ _ _ h1 => both_pure h1.2.toBeside

lemma steady_zadd : Steady zaddCommand := by
  intro S sv c c' argv db db' h
  unfold zaddCommand
  rcases zaddArgs (S.under sv.unlimited) argv with e | ⟨o, scores⟩
  · exact both_pure h
  refine both_getOrCreate_bind h (fun _ _ _ h1 => both_pure h1) fun w created d d' h1 => ?_
  dsimp only
  split
  · exact both_zaddIncr _ _ _ _ h1
  · refine (both_performAll zsetKind _ h1).bind fun _ _ _ h2 => ?_
    exact (both_dropIfCreated _ h2.2.toBeside).bind fun _ _ _ h3 => both_pure h3

lemma both_delAll : ∀ (keys : List Bytes) {db db' : MemDB}, Beside c.now.ms c'.now.ms db db' →
    Both (delAll S c keys) (delAll S c' keys) db db' fun _ d d' => Beside c.now.ms c'.now.ms d d'
  | [], _, _, h => both_pure h
  | _ :: keys, _, _, h =>
    (both_del h).bind fun _ _ _ h1 => (both_delAll keys h1).bind fun _ _ _ h2 => both_pure h2

lemma steady_del : Steady delCommand := by
  intro S sv c c' argv db db' h
  exact (both_delAll _ h).bind fun _ _ _ h1 => both_pure h1

end

/-! ## Commands that failed -/

/-- Nothing has changed, but that keys past their deadline may be gone. -/
def Untouched (now : Clock) (db d : MemDB) : Prop :=
  ∀ k, d.lookup k = db.lookup k ∨ (db.isExpired now k = true ∧ d.lookup k = none)

/-- An error leaves everything as it was. -/
abbrev Inert (now : Clock) (db : MemDB) (reply : Bytes) (d : MemDB) : Prop := succeeded reply = false → Untouched now db d

section
variable {S : Settings} {c : Call} {argv : Argv} {db d : MemDB} {key : Bytes}

lemma Untouched.shown {now : Clock} (h : Untouched now db d) {ms : Int} (hle : now.ms ≤ ms) (k : Bytes) :
    shown d k ms = shown db k ms := by
  unfold Encoded.shown
  rcases h k with hk | ⟨hx, hk⟩
  · rw [hk]
  obtain ⟨s, hs, hx⟩ := (any_eq_true _ _).1 hx
  rw [hk, hs, shownSlot_later hle (some s), shownSlot_expired hx]
  rfl

lemma inert_self (reply : Bytes) : Inert c.now db reply db := fun _ _ => .inl rfl

lemma inert_of_ok {reply : Bytes} (h : succeeded reply = true) : Inert c.now db reply d :=
  fun he => Bool.noConfusion (h.symm.trans he)

lemma inert_looked {reply : Bytes} (h : Looked c.now db key d) : Inert c.now db reply d := fun _ => h.lookup

lemma inert_mset : (msetCommand S c argv).Ends db (Inert c.now db) := by
  unfold msetCommand
  split_ifs
  · exact inert_self _
  · exact ends_self.bind fun _ _ _ => inert_of_ok rfl

lemma looked_getString : (getString S c key).Ends db fun _ => Looked c.now db key := by
  refine ends_get.bind fun r d h => ?_
  cases r with
  | none | some => exact h.2

lemma inert_incr : (incrCommand S c argv).Ends db (Inert c.now db) := by
  refine looked_getString.bind fun r d h => ?_
  cases r with
  | error e => exact inert_looked h
  | ok old =>
  dsimp only
  cases old.elim (some 0) fun b => parseInt b.1 with
  | none => exact inert_looked h
  | some current =>
    dsimp only
    split_ifs
    · exact inert_looked h
    · exact ends_self.bind fun _ _ _ => inert_of_ok rfl

lemma inert_append : (appendCommand S c argv).Ends db (Inert c.now db) := by
  refine looked_getString.bind fun r d h => ?_
  cases r with
  | error e => exact inert_looked h
  | ok old => exact ends_self.bind fun _ _ _ => inert_of_ok rfl

lemma inert_hset : (hsetCommand S c argv).Ends db (Inert c.now db) := by
  unfold hsetCommand hsetGeneric
  split_ifs
  · exact inert_self _
  · refine ends_getOrCreate_bind (fun d h _ => inert_looked h) (fun _ _ _ _ => ?_) fun _ _ _ _ _ _ => ?_
    all_goals exact ends_self.bind fun _ _ _ => inert_of_ok rfl

lemma inert_rpush : (rpushCommand S c argv).Ends db (Inert c.now db) := by
  refine ends_getOrCreate_bind (fun d h _ => inert_looked h) (fun _ _ _ _ => ?_) fun _ _ _ _ _ _ => ?_
  all_goals exact ends_self.bind fun _ _ _ => inert_of_ok rfl

lemma inert_sadd : (saddCommand S c argv).Ends db (Inert c.now db) := by
  refine ends_getOrCreate_bind (fun d h _ => inert_looked h) (fun _ _ _ _ => ?_) fun _ _ _ _ _ _ => ?_
  all_goals exact ends_self.bind fun _ _ _ => inert_of_ok rfl

lemma inert_zaddIncr {o : ZaddOpts} {created : Bool} {member : Bytes} {delta : Score}
    (h : w.held.items ≠ [] → Untouched c.now db d) :
    (zaddIncr S c o w created member delta).Ends d (Inert c.now db) := by
  unfold zaddIncr
  dsimp only
  split_ifs with hskip hnan
  · exact ends_self.bind fun _ _ _ => inert_of_ok rfl
  · refine fun _ => h fun hnil => ?_
    rw [hnil] at hnan
    exact Bool.noConfusion hnan.1
  all_goals exact ends_self.bind fun _ _ _ => inert_of_ok rfl

lemma inert_zadd : (zaddCommand S c argv).Ends db (Inert c.now db) := by
  unfold zaddCommand
  rcases zaddArgs S argv with e | ⟨o, scores⟩
  · exact inert_self _
  refine ends_getOrCreate_bind (fun d h _ => inert_looked h) (fun _ d _ _ => ?_) fun _ _ d h _ _ => ?_
  · dsimp only
    split
    · exact inert_zaddIncr fun hne => absurd rfl hne
    · exact ends_self.bind fun _ _ _ => ends_self.bind fun _ _ _ => inert_of_ok rfl
  · dsimp only
    split
    · exact inert_zaddIncr fun _ => h.lookup
    · exact ends_self.bind fun _ _ _ => ends_self.bind fun _ _ _ => inert_of_ok rfl

lemma inert_del : (delCommand S c argv).Ends db (Inert c.now db) :=
  ends_self.bind fun _ _ _ => inert_of_ok rfl

end

end Gopherdis.Encoded
