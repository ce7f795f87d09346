/-
What a handler makes of the keyspace, from the view it has of one key. A view that is attached has its
key show what it holds, with the deadline the key had when the handler began; the other keys are as they
were, or were evicted. A tidy handler leaves no collection without elements and keeps the deadline, and
if it reports an error it has changed nothing.
-/
import Gopherdis.Encoded.View

namespace Gopherdis.Encoded

open Lib Codec Object Store Command MemM MemDB

variable {β : Type} {K : Kind β} {S : Settings} {c : Call} {db db' db'' : MemDB} {key : Bytes} {now : Clock}
variable {exp : Option Int}

/-! ## What becomes of a key -/

/-- No stored collection is empty. -/
def Full (db : MemDB) : Prop := ∀ k s, db.lookup k = some s → isVoid s.obj.val = false

/-- The deadline a key has, unless it is past it. -/
def liveExp (db : MemDB) (key : Bytes) (now : Clock) : Option Int := (db.live key now.ms).bind Slot.exp

lemma expired_liveExp {k : Bytes} {obj : Robj} : (Slot.mk obj (liveExp db k now)).expired now.ms = false := by
  unfold liveExp
  cases hs : db.live k now.ms with
  | none => rfl
  | some s => exact (live_eq_some.1 hs).2

/-- A key is as it was, is gone, or holds something else under the deadline it had. Only a collection that
was empty is left empty. -/
def Kept (now : Clock) (db db' : MemDB) (k : Bytes) : Prop :=
  db'.lookup k = db.lookup k ∨ db'.lookup k = none ∨
    ∃ obj, db'.lookup k = some ⟨obj, liveExp db k now⟩ ∧
      ((∀ s, db.lookup k = some s → isVoid s.obj.val = false) → isVoid obj.val = false)

def Neat (now : Clock) (db db' : MemDB) : Prop := ∀ k, Kept now db db' k

/-- Nothing has changed, but that keys past their deadline may be gone. -/
def Idle (now : Clock) (db db' : MemDB) : Prop :=
  ∀ k, contents db' k = contents db k ∨ (db.isExpired now k = true ∧ db'.lookup k = none)

/-- The keys are kept, and after an error everything is as it was. -/
structure Tidy (now : Clock) (db : MemDB) (reply : Bytes) (db' : MemDB) : Prop where
  neat : Neat now db db'
  idle : succeeded reply = false → Idle now db db'

lemma Tidy.refl (now : Clock) (db : MemDB) (reply : Bytes) : Tidy now db reply db :=
  ⟨fun _ => .inl rfl, fun _ _ => .inl rfl⟩

lemma Neat.full (h : Neat now db db') (hf : Full db) : Full db' := by
  intro k s hs
  rcases h k with hk | hk | ⟨obj, hk, hobj⟩
  · exact hf k s (hk.symm.trans hs)
  · rw [hk] at hs
    cases hs
  rw [hk] at hs
  cases hs
  exact hobj fun s hs => hf k s hs

lemma Neat.tidy (h : Neat now db db') {reply : Bytes} (hok : succeeded reply = true) : Tidy now db reply db' := by
  refine ⟨h, fun he => ?_⟩
  rw [hok] at he
  cases he

lemma Neat.deadline (h : Neat now db db') {s s' : Slot} (hs : db.live key now.ms = some s)
    (hs' : db'.lookup key = some s') : s'.exp = s.exp := by
  have hl := (live_eq_some.1 hs).1
  rcases h key with hk | hk | ⟨obj, hk, -⟩
  · rw [hk, hl] at hs'
    cases hs'
    rfl
  · rw [hk] at hs'
    cases hs'
  · rw [hk] at hs'
    cases hs'
    rw [liveExp, hs]
    rfl

/-! ### A key that was only looked at -/

/-- After a lookup the key shows what was live there. -/
def Looked (now : Clock) (db : MemDB) (key : Bytes) (db' : MemDB) : Prop := Leaves db key db' (db.live key now.ms)

section
variable (h : Looked now db key db')
include h

lemma Looked.lookup (k : Bytes) : db'.lookup k = db.lookup k ∨ (db.isExpired now k = true ∧ db'.lookup k = none) := by
  by_cases hk : k = key
  · subst hk
    by_cases hx : db.isExpired now k = true
    · exact .inr ⟨hx, h.here.trans (live_of_isExpired hx)⟩
    · exact .inl (h.here.trans (live_of_not_isExpired hx))
  · exact .inl (h.frame k hk)

lemma Looked.neat : Neat now db db' := by
  intro k
  rcases h.lookup k with hk | ⟨-, hk⟩
  · exact .inl hk
  · exact .inr (.inl hk)

lemma Looked.idle : Idle now db db' := by
  intro k
  rcases h.lookup k with hk | hk
  · exact .inl (contents_congr hk)
  · exact .inr hk

lemma Looked.tidy (reply : Bytes) : Tidy now db reply db' := ⟨h.neat, fun _ => h.idle⟩

end

/-! ## Views -/

/-- A view that was resolved in a handler that began at `db`. -/
structure Sees (K : Kind β) (now : Clock) (db : MemDB) (w : View β) (db' : MemDB) : Prop where
  others : ∀ k, k ≠ w.key → db'.lookup k = db.lookup k ∨ db'.lookup k = none
  here : db'.lookup w.key = if w.attached then some ⟨w.held.obj K, liveExp db w.key now⟩ else none
  loose : w.attached = false → liveExp db w.key now = none

variable {w : View β}

lemma Sees.neat (h : Sees K now db w db')
    (hfull : (∀ s, db.lookup w.key = some s → isVoid s.obj.val = false) → w.held.items ≠ []) : Neat now db db' := by
  intro k
  by_cases hk : k = w.key
  · rw [hk]
    have hhere := h.here
    by_cases ha : w.attached = true
    · rw [if_pos ha] at hhere
      refine .inr (.inr ⟨_, hhere, fun hf => ?_⟩)
      rw [Held.obj, K.isVoid_wrap]
      simpa using hfull hf
    · rw [if_neg ha] at hhere
      exact .inr (.inl hhere)
  · rcases h.others k hk with hs | hs
    · exact .inl hs
    · exact .inr (.inl hs)

lemma ends_perform (h : Sees K now db w db') (e : Edit β) : (w.perform K S e).Ends db' fun w' db'' =>
      w'.key = w.key ∧ w'.held = e.apply w.held ∧ (w.attached = true → w'.attached = true) ∧ Sees K now db w' db'' ∧
        ∀ k, k ≠ w.key → db''.lookup k = db'.lookup k := by
  obtain ⟨key, held, attached⟩ := w
  have hhere := h.here
  cases e with
  | inPlace items =>
    cases attached with
    | true =>
      have hedit := leaves_edit (E := S.E) db' key ⟨K.wrap items, held.enc⟩
      refine ⟨rfl, rfl, fun _ => rfl, ⟨fun k hk => ?_, ?_, Bool.noConfusion⟩, hedit.frame⟩
      · exact (hedit.frame k hk) ▸ h.others k hk
      · refine hedit.here.trans ?_
        rw [hhere]
        rfl
    | false => exact ⟨rfl, rfl, id, ⟨h.others, hhere, h.loose⟩, fun _ _ => rfl⟩
  | publish h' =>
    have hpub := leaves_replace (E := S.E) db' key ⟨h'.obj K, (db'.lookup key).bind Slot.exp⟩
    refine ⟨rfl, rfl, fun _ => rfl, ⟨fun k hk => ?_, ?_, Bool.noConfusion⟩, hpub.frame⟩
    · exact (hpub.frame k hk) ▸ h.others k hk
    · refine hpub.here.trans ?_
      rw [hhere]
      cases attached with
      | true => rfl
      | false => exact congrArg (fun exp => some (Slot.mk (h'.obj K) exp)) (h.loose rfl).symm

lemma ends_performAll : ∀ (es : List (Edit β)) {w : View β} {db' : MemDB}, Sees K now db w db' →
    (w.performAll K S es).Ends db' fun w' db'' =>
      w'.key = w.key ∧ w'.held = w.held.edited es ∧ (w.attached = true → w'.attached = true) ∧
        Sees K now db w' db'' ∧ ∀ k, k ≠ w.key → db''.lookup k = db'.lookup k
  | [], _, _, h => ⟨rfl, rfl, id, h, fun _ _ => rfl⟩
  | e :: es, w, db', h => by
    refine (ends_perform h e).bind fun w1 db1 h1 => ?_
    obtain ⟨hkey, hheld, hatt, hsees, hframe⟩ := h1
    refine (ends_performAll es hsees).mono fun w2 db2 h2 => ?_
    obtain ⟨hkey2, hheld2, hatt2, hsees2, hframe2⟩ := h2
    refine ⟨hkey2.trans hkey, by rw [hheld2, hheld, edited_cons], fun h => hatt2 (hatt h), hsees2, fun k hk => ?_⟩
    exact (hframe2 k (hkey ▸ hk)).trans (hframe k hk)

lemma ends_drop (h : Sees K now db w db') (c : Call) : (w.drop S c).Ends db' fun _ db'' =>
      Neat now db db'' ∧ (∀ k, k ≠ w.key → db''.lookup k = db'.lookup k) ∧
        db''.lookup w.key = if w.held.items.isEmpty then none else db'.lookup w.key := by
  unfold View.drop
  split_ifs with he
  · refine ends_del.bind fun _ db1 h1 => ⟨fun k => ?_, h1.frame, h1.here⟩
    by_cases hk : k = w.key
    · rw [hk]
      exact .inr (.inl h1.here)
    rcases h.others k hk with hs | hs
    · exact .inl ((h1.frame k hk).trans hs)
    · exact .inr (.inl ((h1.frame k hk).trans hs))
  · exact ⟨h.neat fun _ hnil => he (by rw [hnil]; rfl), fun _ _ => rfl, rfl⟩

/-! ## Resolving a view -/

variable {held : Held β}

lemma sees_live (hs : db.live key now.ms = some ⟨held.obj K, exp⟩)
    (h : Looked now db key db') : Sees K now db ⟨key, held, true⟩ db' := by
  refine ⟨fun k hk => .inl (h.frame k hk), ?_, Bool.noConfusion⟩
  rw [if_pos rfl, h.here, hs, liveExp, hs]
  rfl

lemma viewOf_cases (key : Bytes) (o : Robj) : (K.view o.val = none ∧ viewOf K key o = .error wrongType) ∨
      ∃ held : Held β, o = held.obj K ∧ viewOf K key o = .ok ⟨key, held, true⟩ := by
  obtain ⟨val, enc⟩ := o
  cases hv : K.view val with
  | none =>
    refine .inl ⟨rfl, ?_⟩
    rw [viewOf, hv]
    rfl
  | some items =>
  refine .inr ⟨⟨items, enc⟩, ?_, ?_⟩
  · rw [K.eq_wrap hv]
    rfl
  · rw [viewOf, hv]
    rfl

section
variable {α : Type} {Q : α → MemDB → Prop}

lemma ends_getView_bind {f : Except Bytes (Option (View β)) → MemM S.E α}
    (herror : ∀ db', Looked c.now db key db' → (f (.error wrongType)).Ends db' Q)
    (hnone : ∀ db', Looked c.now db key db' → db.live key c.now.ms = none → (f (.ok none)).Ends db' Q)
    (hsome : ∀ (held : Held β) (exp : Option Int) (db' : MemDB), Looked c.now db key db' →
      db.live key c.now.ms = some ⟨held.obj K, exp⟩ → Sees K c.now db ⟨key, held, true⟩ db' →
      (f (.ok (some ⟨key, held, true⟩))).Ends db' Q) : (getView K S c key >>= f).Ends db Q := by
  have hget : (getView K S c key).Ends db fun r db' => Looked c.now db key db' ∧
      r = (db.live key c.now.ms).elim (.ok none) fun s => (viewOf K key s.obj).map some := by
    refine ends_get.bind fun r db1 h1 => ?_
    obtain ⟨rfl, h1⟩ := h1
    cases db.live key c.now.ms with
    | none | some => exact ⟨h1, rfl⟩
  refine hget.bind fun r db1 h1 => ?_
  obtain ⟨h1, rfl⟩ := h1
  cases hs : db.live key c.now.ms with
  | none => exact hnone db1 h1 hs
  | some s =>
  obtain ⟨o, exp⟩ := s
  rcases viewOf_cases (K := K) key o with ⟨-, hw⟩ | ⟨held, rfl, hw⟩
  · rw [Option.elim_some, hw]
    exact herror db1 h1
  · rw [Option.elim_some, hw]
    exact hsome held exp db1 h1 hs (sees_live hs h1)

lemma sees_new (hs : db.live key now.ms = none) (h : Looked now db key db') :
    (set S.server key ⟨K.wrap [], K.fresh⟩ : MemM S.E Bool).Ends db' fun stored db'' =>
      Sees K now db ⟨key, ⟨[], K.fresh⟩, stored⟩ db'' := by
  refine ends_store.mono fun stored db'' h'' => ?_
  obtain ⟨hothers, hhere⟩ := h''
  have hexp : liveExp db key now = none := by
    rw [liveExp, hs]
    rfl
  refine ⟨fun k hk => ?_, ?_, fun _ => hexp⟩
  · rw [← h.frame k hk]
    exact hothers k hk
  · cases stored with
    | true => exact hhere.trans (by rw [hexp]; rfl)
    | false =>
      rcases hhere with hk | hk
      · exact hk.trans (h.here.trans hs)
      · exact hk

lemma ends_getOrCreate_bind {f : Except Bytes (View β × Bool) → MemM S.E α}
    (herror : ∀ db', Looked c.now db key db' → (∃ s, db.live key c.now.ms = some s ∧ K.view s.obj.val = none) →
      (f (.error wrongType)).Ends db' Q) (hnew : ∀ (attached : Bool) (db' : MemDB), db.live key c.now.ms = none →
      Sees K c.now db ⟨key, ⟨[], K.fresh⟩, attached⟩ db' → (f (.ok (⟨key, ⟨[], K.fresh⟩, attached⟩, true))).Ends db' Q)
    (hold : ∀ (held : Held β) (exp : Option Int) (db' : MemDB), Looked c.now db key db' →
      db.live key c.now.ms = some ⟨held.obj K, exp⟩ → Sees K c.now db ⟨key, held, true⟩ db' →
      (f (.ok (⟨key, held, true⟩, false))).Ends db' Q) : (getOrCreate K S c key >>= f).Ends db Q := by
  unfold getOrCreate
  rw [bind_assoc]
  refine ends_get.bind fun r db1 h1 => ?_
  obtain ⟨rfl, h1⟩ := h1
  cases hs : db.live key c.now.ms with
  | none =>
    simp only [Option.map_none, bind_assoc]
    exact (sees_new hs h1).bind fun stored db2 h2 => hnew stored db2 hs h2
  | some s =>
  obtain ⟨o, exp⟩ := s
  rcases viewOf_cases (K := K) key o with ⟨hv, hw⟩ | ⟨held, rfl, hw⟩
  · simp only [Option.map_some, hw]
    exact herror db1 h1 ⟨_, hs, hv⟩
  · simp only [Option.map_some, hw]
    exact hold held exp db1 h1 hs (sees_live hs h1)

end

lemma Neat.of_looked (h : Looked now db key db') (hn : Neat now db' db'') : Neat now db db'' := by
  intro k
  rcases h.lookup k with hk | ⟨hx, hk⟩
  · have hexp : liveExp db' k now = liveExp db k now := by
      rw [liveExp, liveExp, live, live, hk]
    have := hn k
    unfold Kept at this ⊢
    rwa [hk, hexp] at this
  have hexp : liveExp db' k now = liveExp db k now := by
    rw [liveExp, liveExp, live_of_isExpired hx, live, hk]
    rfl
  rcases hn k with hs | hs | ⟨obj, hs, hobj⟩
  · exact .inr (.inl (hs.trans hk))
  · exact .inr (.inl hs)
  refine .inr (.inr ⟨obj, hexp ▸ hs, fun _ => hobj fun s hs => ?_⟩)
  rw [hk] at hs
  cases hs

lemma Sees.idle (hl : Looked now db w.key db')
    (hs : db.live w.key now.ms = some ⟨held.obj K, exp⟩) (h : Sees K now db w db'') (ha : w.attached = true)
    (hitems : w.held.items = held.items) (hframe : ∀ k, k ≠ w.key → db''.lookup k = db'.lookup k) : Idle now db db'' := by
  intro k
  by_cases hk : k = w.key
  · refine .inl ?_
    have hhere := h.here
    rw [if_pos ha, liveExp, hs] at hhere
    rw [hk, contents_of_lookup hhere, contents_of_lookup (live_eq_some.1 hs).1]
    simp only [Held.obj, hitems]
    rfl
  · exact .inl (contents_congr ((hframe k hk).trans (hl.frame k hk)))

lemma items_ne_nil (hs : db.live key now.ms = some ⟨held.obj K, exp⟩)
    (hf : ∀ s, db.lookup key = some s → isVoid s.obj.val = false) : held.items ≠ [] := by
  have := hf _ (live_eq_some.1 hs).1
  rw [Held.obj, K.isVoid_wrap] at this
  simpa using this

/-! ## Where nothing was -/

/-- The state once a key has been looked up. -/
def afterGet (S : Settings) (db : MemDB) (key : Bytes) (now : Clock) : MemDB :=
  if db.isExpired now key then (MemOp.remove key).apply S.E db else db

lemma ends_get_exact : (get now key : MemM S.E (Option Robj)).Ends db fun r db' =>
    r = (db.live key now.ms).map Slot.obj ∧ db' = afterGet S db key now := by
  refine Traced.ends_read_bind ?_
  unfold afterGet
  by_cases h : db.isExpired now key = true
  · rw [if_pos h, if_pos h, live_of_isExpired h]
    exact ⟨rfl, rfl⟩
  · rw [if_neg h, if_neg h, live_of_not_isExpired h]
    exact ⟨rfl, rfl⟩

lemma looked_afterGet : Looked now db key (afterGet S db key now) := by
  unfold Looked afterGet
  split_ifs with h
  · rw [live_of_isExpired h]
    exact leaves_remove db key
  · rw [live_of_not_isExpired h]
    exact .refl db key

lemma afterGet_of_absent (h : db.lookup key = none) : afterGet S db key now = db := by
  rw [afterGet, isExpired, h]
  rfl

section
variable {obj : Robj}

lemma ends_make : (set S.server key obj : MemM S.E Bool).Ends db fun stored db' =>
    (stored = true ↔ Fits S key obj db) ∧ (∀ k, k ≠ key → db'.lookup k = (afterEviction S key obj db).lookup k) ∧
      db'.lookup key = if stored then some ⟨obj, none⟩ else (afterEviction S key obj db).lookup key := by
  refine ⟨result_set_iff, ?_⟩
  by_cases hf : Fits S key obj db
  · rw [after_set_of_fits hf, result_set_iff.2 hf]
    exact ⟨fun k hk => replace_lookup_ne _ hk, replace_lookup_self ..⟩
  · rw [after_set_of_not_fits hf, Bool.eq_false_iff.2 fun h => hf (result_set_iff.1 h)]
    exact ⟨fun _ _ => rfl, rfl⟩

lemma afterEviction_absent (hn : db.live key now.ms = none) :
    (afterEviction S key obj (afterGet S db key now)).lookup key = none := by
  have hget : (afterGet S db key now).lookup key = none := looked_afterGet.here.trans hn
  rcases afterEviction_thinned S key obj (afterGet S db key now) key with h | h
  · exact h.trans hget
  · exact h

end

lemma ends_getOrCreate_new {α : Type} {Q : α → MemDB → Prop} {f : Except Bytes (View β × Bool) → MemM S.E α}
    (hn : db.live key c.now.ms = none)
    (h : ∀ (attached : Bool) (db' : MemDB), (attached = true ↔ Fits S key ⟨K.wrap [], K.fresh⟩ (afterGet S db key c.now)) →
      Sees K c.now db ⟨key, ⟨[], K.fresh⟩, attached⟩ db' →
      (∀ k, k ≠ key → db'.lookup k = (afterEviction S key ⟨K.wrap [], K.fresh⟩ (afterGet S db key c.now)).lookup k) →
      (f (.ok (⟨key, ⟨[], K.fresh⟩, attached⟩, true))).Ends db' Q) : (getOrCreate K S c key >>= f).Ends db Q := by
  unfold getOrCreate
  rw [bind_assoc]
  refine ends_get_exact.bind fun r db1 h1 => ?_
  obtain ⟨rfl, rfl⟩ := h1
  rw [hn]
  simp only [Option.map_none, bind_assoc]
  have hset := (ends_make (S := S)).and (sees_new (K := K) hn (looked_afterGet (S := S)))
  exact hset.bind fun stored db' h' => h stored db' h'.1.1 h'.2 h'.1.2.1

lemma performAll_attached : ∀ (es : List (Edit β)) (w : View β) (db : MemDB),
    (w.performAll K S es).Ends db fun w' _ => w'.attached = (w.attached || es.any fun e => !e.isInPlace)
  | [], w, _ => (Bool.or_false _).symm
  | e :: es, w, db => by
    have he : (w.perform K S e).Ends db fun w' _ => w'.attached = (w.attached || !e.isInPlace) := by
      cases e with
      | inPlace items =>
        obtain ⟨_, _, attached⟩ := w
        cases attached <;> rfl
      | publish h => exact (Bool.or_true _).symm
    refine he.bind fun w1 db1 h1 => ?_
    refine (performAll_attached es w1 db1).mono fun w2 _ h2 => ?_
    rw [h2, h1, List.any_cons, Bool.or_assoc]

/-! ## What every object is -/

/-- Every stored object is of this sort. -/
def Each (P : Robj → Prop) (db : MemDB) : Prop := ∀ k s, db.lookup k = some s → P s.obj

section
variable {P : Robj → Prop}

section
variable (h : Each P db)
include h

lemma Each.of_frame (hothers : ∀ k, k ≠ key → db'.lookup k = db.lookup k ∨ db'.lookup k = none)
    (hhere : ∀ s, db'.lookup key = some s → P s.obj) : Each P db' := by
  intro k s hs
  by_cases hk : k = key
  · exact hhere s (hk ▸ hs)
  rcases hothers k hk with hsame | hgone
  · exact h k s (hsame.symm.trans hs)
  · rw [hgone] at hs
    cases hs

lemma Each.thinned (ht : Thinned db db') : Each P db' := by
  intro k s hs
  rcases ht k with hsame | hgone
  · exact h k s (hsame.symm.trans hs)
  · rw [hgone] at hs
    cases hs

lemma Each.leaves {o : Option Slot} (hl : Leaves db key db' o) (ho : ∀ s, o = some s → P s.obj) : Each P db' :=
  h.of_frame (fun k hk => .inl (hl.frame k hk)) fun s hs => ho s (hl.here.symm.trans hs)

lemma Each.live {s : Slot} (hs : db.live key now.ms = some s) : P s.obj :=
  h key s (live_eq_some.1 hs).1

lemma Each.looked (hl : Looked now db key db') : Each P db' := h.leaves hl fun _ hs => h.live hs

lemma Each.sees {w : View β} (hw : Sees K now db w db') (hheld : P (w.held.obj K)) : Each P db' := by
  refine h.of_frame hw.others fun s hs => ?_
  rw [hw.here] at hs
  split_ifs at hs
  cases hs
  exact hheld

lemma each_store {obj : Robj} (hobj : P obj) {sv : Store.Server} :
    (store sv key obj exp : MemM S.E _).Ends db fun _ => Each P := by
  refine ends_store.mono fun stored db1 h1 => ?_
  refine h.of_frame h1.1 fun s hs => ?_
  have hhere := h1.2
  cases stored with
  | true =>
    rw [if_pos rfl, hs] at hhere
    cases hhere
    exact hobj
  | false =>
    rcases hhere with hsame | hgone
    · exact h key s (hsame.symm.trans hs)
    · rw [hgone] at hs
      cases hs

lemma each_del : (del now key : MemM S.E _).Ends db fun _ => Each P := by
  refine ends_del.mono fun _ db1 h1 => h.leaves h1 fun s hs => ?_
  cases hs

lemma each_setExpireAt {exp : Int} : (setExpireAt now key exp : MemM S.E _).Ends db fun _ => Each P := by
  refine ends_setExpireAt.mono fun _ db1 h1 => h.leaves h1.2 fun s hs => ?_
  obtain ⟨t, ht, rfl⟩ := Option.map_eq_some_iff.1 hs
  exact h.live (s := t) ht

end

end

end Gopherdis.Encoded
