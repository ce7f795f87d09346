/-
`LMOVE` and `SMOVE`: an element is taken out of one collection, whose key goes with its last element, and
put into another one. Where both are the same key and the element was the only one, the key is gone in
between, and its deadline with it.
-/
import Gopherdis.Encoded.Tidy
import Gopherdis.Encoded.Updates

namespace Gopherdis.Encoded

open Lib Codec Object Store Command List MemDB

variable {β : Type} {K : Kind β} {S : Settings} {c : Call} {argv : Argv} {db db' db1 db2 : MemDB} {key src dst : Bytes}
  {now : Clock}
variable {reply : Bytes} {last : Prop} {exp : Option Int}

/-! ## Two steps, one after the other -/

lemma liveExp_of_lookup {k : Bytes} {obj : Robj} (h : db1.lookup k = some ⟨obj, liveExp db k now⟩) :
    liveExp db1 k now = liveExp db k now := by
  rw [liveExp, live_eq_some.2 ⟨h, expired_liveExp⟩]
  rfl

lemma Sees.looked {db'' : MemDB} {w : View β} (h : Sees K now db w db') (hl : Looked now db' key db'') :
    Sees K now db w db'' := by
  refine ⟨fun k hk => ?_, ?_, h.loose⟩
  · rcases hl.lookup k with hs | ⟨-, hs⟩
    · rw [hs]
      exact h.others k hk
    · exact .inr hs
  · rcases hl.lookup w.key with hs | ⟨hx, hs⟩
    · exact hs.trans h.here
    -- what the view shows is not past its deadline, which is that of a live key
    obtain ⟨t, ht, hexp⟩ := (Option.any_eq_true _ _).1 hx
    have hhere := h.here
    rw [ht] at hhere
    split_ifs at hhere with ha
    cases hhere
    cases expired_liveExp.symm.trans hexp

lemma Kept.trans {k : Bytes} (h : Kept now db db1 k) (h' : Kept now db1 db2 k)
    (hgone : db1.lookup k = none → db2.lookup k = none ∨ liveExp db k now = none) : Kept now db db2 k := by
  rcases h with hk | hk | ⟨obj, hk, hobj⟩
  · have hexp : liveExp db1 k now = liveExp db k now := by rw [liveExp, liveExp, live, live, hk]
    unfold Kept at h' ⊢
    rwa [hk, hexp] at h'
  · rcases hgone hk with hn | hn
    · exact .inr (.inl hn)
    rcases h' with hk' | hk' | ⟨obj, hk', hobj⟩
    · exact .inr (.inl (hk'.trans hk))
    · exact .inr (.inl hk')
    have hexp : liveExp db1 k now = liveExp db k now := by
      rw [hn, liveExp, live, hk]
      rfl
    refine .inr (.inr ⟨obj, hexp ▸ hk', fun _ => hobj fun s hs => ?_⟩)
    cases hk.symm.trans hs
  · have hexp : liveExp db1 k now = liveExp db k now := liveExp_of_lookup hk
    rcases h' with hk' | hk' | ⟨obj', hk', hobj'⟩
    · exact .inr (.inr ⟨obj, hk'.trans hk, hobj⟩)
    · exact .inr (.inl hk')
    refine .inr (.inr ⟨obj', hexp ▸ hk', fun hf => hobj' fun s hs => ?_⟩)
    cases hk.symm.trans hs
    exact hobj hf

/-! ## Moving an element -/

section
variable (K S c)

/-- What is done once the element is known: the source changes, and then the destination. -/
def transfer (w : View β) (es : List (Edit β)) (dst : Bytes) (put : Except Bytes (View β × Bool) → MemM S.E Bytes) :
    MemM S.E Bytes := do
  let w ← w.performAll K S es
  w.drop S c
  let w ← getOrCreate K S c dst
  put w

end

lemma performAll_singleton (w : View β) (e : Edit β) : w.performAll K S [e] = w.perform K S e :=
  bind_pure (w.perform K S e)

variable {put : Except Bytes (View β × Bool) → MemM S.E Bytes} {f : Held β → List (Edit β)} {es : List (Edit β)}

lemma ends_transfer {w : View β}
    (hput : ∀ w made, put (.ok (w, made)) = do let _ ← w.performAll K S (f w.held); return reply)
    (hw : Sees K c.now db w db') (ha : w.attached = true) (hdst : dst ≠ w.key → db'.lookup dst = db.live dst c.now.ms)
    (hkind : dst ≠ w.key → ∀ s, db.live dst c.now.ms = some s → (K.view s.obj.val).isSome)
    (hf : ∀ h : Held β, (h.edited (f h)).items ≠ []) :
    (transfer K S c w es dst put).Ends db' fun r db'' =>
      r = reply ∧ (Full db → Full db'') ∧ (¬ (dst = w.key ∧ (w.held.edited es).items = []) → Neat c.now db db'') := by
  refine (ends_performAll es hw).bind fun w1 db1 h1 => ?_
  obtain ⟨hkey, hheld, hatt, hsees, hframe⟩ := h1
  refine (ends_drop hsees c).bind fun _ db2 h2 => ?_
  obtain ⟨hneat, hframe2, hhere⟩ := h2
  have hlive : dst ≠ w.key → db2.lookup dst = db.live dst c.now.ms := by
    intro hne
    rw [hframe2 dst (hkey ▸ hne), hframe dst hne, hdst hne]
  -- A destination that is absent by now was so before, unless it is the source.
  have hgone : ¬ (dst = w.key ∧ (w.held.edited es).items = []) → db2.lookup dst = none → liveExp db dst c.now = none := by
    intro hnot hn
    by_cases hd : dst = w.key
    · rw [hd, ← hkey, hhere, hheld, if_neg fun h => hnot ⟨hd, isEmpty_iff.1 h⟩, hsees.here, if_pos (hatt ha)] at hn
      cases hn
    · rw [liveExp, ← hlive hd, hn]
      rfl
  have hadd {w2 : View β} {made : Bool} {db3 : MemDB} (hk : w2.key = dst) (hw2 : Sees K c.now db2 w2 db3) :
      (put (.ok (w2, made))).Ends db3 fun r db'' =>
        r = reply ∧ (Full db → Full db'') ∧
          (¬ (dst = w.key ∧ (w.held.edited es).items = []) → Neat c.now db db'') := by
    rw [hput]
    refine (ends_performAll _ hw2).bind fun w3 db4 h4 => ?_
    obtain ⟨hkey4, hheld4, -, hsees4, -⟩ := h4
    have hneat4 : Neat c.now db2 db4 := hsees4.neat fun _ => hheld4 ▸ hf _
    refine ⟨rfl, fun hfull => hneat4.full (hneat.full hfull), fun hnot k => (hneat k).trans (hneat4 k) fun hn => ?_⟩
    by_cases hkd : k = dst
    · rw [hkd] at hn ⊢
      exact .inr (hgone hnot hn)
    rcases hsees4.others k (by rw [hkey4, hk]; exact hkd) with hs | hs
    · exact .inl (hs.trans hn)
    · exact .inl hs
  refine ends_getOrCreate_bind ?_ ?_ ?_
  · -- What is there is of the right kind: the source, or what was checked before.
    rintro db3 - ⟨s, hs, hview⟩
    have hl := (live_eq_some.1 hs).1
    by_cases hd : dst = w.key
    · rw [hd, ← hkey, hhere] at hl
      split_ifs at hl
      rw [hsees.here, if_pos (hatt ha)] at hl
      cases hl
      cases (K.view_wrap _).symm.trans hview
    · have := hkind hd s ((hlive hd).symm.trans hl)
      rw [hview] at this
      cases this
  · exact fun _ _ _ h => hadd rfl h
  · exact fun _ _ _ _ _ h => hadd rfl h

/-- What a move leaves. Where it takes the last element out and puts it back in, the key is not kept. -/
structure Moved (now : Clock) (db : MemDB) (last : Prop) (reply : Bytes) (db' : MemDB) : Prop where
  neat : ¬ last → Neat now db db'
  full : Full db → Full db'
  idle : succeeded reply = false → Idle now db db'

lemma Idle.of_looked (h : Looked now db key db1) (h' : Idle now db1 db') : Idle now db db' := by
  intro k
  rcases h.lookup k with hk | ⟨hx, hk⟩
  · have hsame := h' k
    rwa [contents_congr hk, isExpired, hk] at hsame
  refine .inr ⟨hx, ?_⟩
  rcases h' k with hsame | ⟨-, hgone⟩
  · rw [contents, contents, hk] at hsame
    exact Option.map_eq_none_iff.1 hsame
  · exact hgone

lemma Moved.of_looked (h : Looked now db src db1) (h' : Looked now db1 dst db') : Moved now db last reply db' :=
  ⟨fun _ => h'.neat.of_looked h, fun hf => h'.neat.full (h.neat.full hf), fun _ => h'.idle.of_looked h⟩

lemma Moved.mono {last' : Prop} (h : Moved now db last reply db') (hl : last → last') : Moved now db last' reply db' :=
  ⟨fun hn => h.neat fun hlast => hn (hl hlast), h.full, h.idle⟩

lemma Moved.refl : Moved now db last reply db :=
  ⟨fun _ _ => .inl rfl, id, fun _ _ => .inl rfl⟩

lemma Looked.moved (h : Looked now db src db') : Moved now db last reply db' :=
  ⟨fun _ => h.neat, h.neat.full, fun _ => h.idle⟩

lemma ends_holdsOther : (holdsOther K S c key).Ends db fun other db' =>
    Looked c.now db key db' ∧ other = (db.live key c.now.ms).any fun s => (K.view s.obj.val).isNone := by
  refine MemM.ends_get.bind fun r db1 h1 => ?_
  obtain ⟨rfl, h1⟩ := h1
  cases db.live key c.now.ms with
  | none | some => exact ⟨h1, rfl⟩

lemma moved_transfer {held : Held β}
    (hput : ∀ w made, put (.ok (w, made)) = do let _ ← w.performAll K S (f w.held); return reply)
    (h1 : Looked c.now db src db1) (hw : Sees K c.now db ⟨src, held, true⟩ db1) (h2 : Looked c.now db1 dst db2)
    (hother : ((db1.live dst c.now.ms).any fun s => (K.view s.obj.val).isNone) = false)
    (hf : ∀ h : Held β, (h.edited (f h)).items ≠ []) (hok : succeeded reply = true) :
    (transfer K S c ⟨src, held, true⟩ es dst put).Ends db2
      (Moved c.now db (dst = src ∧ (held.edited es).items = [])) := by
  have hlive : dst ≠ src → db1.live dst c.now.ms = db.live dst c.now.ms := by
    intro hne
    rw [live, live, h1.frame dst hne]
  refine (ends_transfer hput (hw.looked h2) rfl ?_ ?_ hf).mono fun r db' h => ?_
  · exact fun hne => h2.here.trans (hlive hne)
  · intro hne s hs
    rw [hlive hne, hs, Option.any_some] at hother
    exact Option.isNone_eq_false_iff.1 hother
  · obtain ⟨rfl, hfull, hneat⟩ := h
    exact ⟨hneat, hfull, fun he => Bool.noConfusion (hok.symm.trans he)⟩

/-! ### The commands -/

/-- The element is the only one of the list, and goes back where it came from. -/
def OnlyElement (db : MemDB) (now : Clock) (src dst : Bytes) (val : Value) : Prop :=
  dst = src ∧ ∃ enc exp, db.live src now.ms = some ⟨⟨val, enc⟩, exp⟩

lemma popEnd_eq_nil {side : ListEnd} {items : List Bytes} {p : Bytes × List Bytes} (h : popEnd side items = some p)
    (hp : p.2 = []) : items = [p.1] := by
  cases side with
  | left =>
    cases items with
    | nil => cases h
    | cons x xs =>
      cases h
      rw [show xs = [] from hp]
  | right =>
  obtain ⟨x, hx, rfl⟩ := Option.map_eq_some_iff.1 h
  have := dropLast_append_getLast? x hx
  rw [show items.dropLast = [] from hp] at this
  exact this.symm

lemma erase_eq_nil {held : Held Bytes} {m : Bytes} (hm : m ∈ held.items)
    (h : (held.edited (setRemoveEdits held m)).items = []) : held.items = [m] := by
  rw [setRemoveEdits, if_pos hm] at h
  have hperm := perm_cons_erase hm
  rw [show held.items.erase m = [] from h] at hperm
  exact perm_singleton.1 hperm

lemma moved_moveElement (src dst : Bytes) (source target : ListEnd) : (moveElement S c src dst source target).Ends db
      (Moved c.now db (∃ val, OnlyElement db c.now src dst (.list [val]))) := by
  refine ends_getView_bind ?_ ?_ ?_
  · exact fun _ h => h.moved
  · exact fun _ h _ => h.moved
  · intro held exp db1 h1 hs hw
    refine ends_holdsOther.bind fun other db2 h2 => ?_
    obtain ⟨h2, rfl⟩ := h2
    split_ifs with hother
    · exact .of_looked h1 h2
    cases hpop : popEnd source held.items with
    | none => exact .of_looked h1 h2
    | some p =>
    have hlast : dst = src ∧ (held.edited [.inPlace p.2]).items = [] →
        ∃ val, OnlyElement db c.now src dst (.list [val]) := by
      rintro ⟨hd, hnil⟩
      rw [Held.obj, popEnd_eq_nil hpop hnil] at hs
      exact ⟨p.1, hd, _, _, hs⟩
    simp only
    rw [← performAll_singleton]
    refine Traced.Ends.mono (moved_transfer (fun _ _ => rfl) h1 hw h2 (Bool.eq_false_iff.2 hother)
      (fun h => pushEdits_ne_nil target h p.1) rfl) fun _ _ h => h.mono hlast

lemma moved_lmoveGeneric (src dst source target : Bytes) : (lmoveGeneric S c src dst source target).Ends db
      (Moved c.now db (∃ val, OnlyElement db c.now src dst (.list [val]))) := by
  unfold lmoveGeneric
  cases listEnd? source with
  | none => exact .refl
  | some source =>
    cases listEnd? target with
    | none => exact .refl
    | some target => exact moved_moveElement src dst source target

lemma moved_smove : (smoveCommand S c argv).Ends db
      (Moved c.now db (OnlyElement db c.now (argv.getD 1 []) (argv.getD 2 []) (.set [argv.getD 3 []]))) := by
  refine ends_getView_bind ?_ ?_ ?_
  · exact fun _ h => h.moved
  · intro db1 h1 _
    refine ends_holdsOther.bind fun other db2 h2 => ?_
    cases other <;> exact .of_looked h1 h2.1
  · intro held exp db1 h1 hs hw
    refine ends_holdsOther.bind fun other db2 h2 => ?_
    obtain ⟨h2, rfl⟩ := h2
    by_cases hother : ((db1.live (argv.getD 2 []) c.now.ms).any fun s => (setKind.view s.obj.val).isNone) = true
    · rw [if_pos hother]
      exact .of_looked h1 h2
    rw [if_neg hother]
    by_cases hm : argv.getD 3 [] ∈ held.items
    · simp only [not_not.2 hm, if_false]
      refine Traced.Ends.mono (moved_transfer (fun _ _ => rfl) h1 hw h2 (Bool.eq_false_iff.2 hother)
        (fun h => setAddEdits_ne_nil h (argv.getD 3 [])) rfl) fun _ _ h => h.mono ?_
      rintro ⟨hd, hnil⟩
      have hval := erase_eq_nil hm hnil
      rw [Held.obj, hval] at hs
      exact ⟨hd, _, _, hs⟩
    · simp only [hm, not_false_eq_true, if_true]
      exact .of_looked h1 h2

/-! ### The last element -/

/-- The key whose last element was taken out, and which was deleted therefore. -/
def vacated (S : Settings) (db : MemDB) (key : Bytes) (obj : Robj) : MemDB :=
  (MemOp.remove key).apply S.E ((MemOp.edit key obj).apply S.E db)

lemma ends_del_of_live {s : Slot} (hs : db.live key now.ms = some s) :
    (MemM.del now key : MemM S.E Bool).Ends db fun _ db' => db' = (MemOp.remove key).apply S.E db := by
  obtain ⟨hl, hx⟩ := live_eq_some.1 hs
  have hfresh : db.isExpired now key = false := by rw [isExpired, hl, Option.any_some, hx]
  refine Traced.ends_read_bind ?_
  rw [hfresh]
  refine Traced.ends_read_bind ?_
  rw [hl]
  exact rfl

lemma ends_transfer_last {held : Held β} (f : Held β → List (Edit β)) (reply : Bytes)
    (hput : ∀ w made, put (.ok (w, made)) = do let _ ← w.performAll K S (f w.held); return reply)
    (hs : db.live key c.now.ms = some ⟨held.obj K, exp⟩) :
    (transfer K S c ⟨key, held, true⟩ [.inPlace []] key put).Ends db fun r db' =>
      r = reply ∧ (∀ k, k ≠ key → db'.lookup k = db.lookup k ∨ db'.lookup k = none) ∧
        (∀ s, db'.lookup key = some s → s.exp = none) ∧
        ((db'.lookup key).isSome = true ↔
          Fits S key ⟨K.wrap [], K.fresh⟩ (vacated S db key ⟨K.wrap [], held.enc⟩) ∨
            (f ⟨[], K.fresh⟩).any (fun e => !e.isInPlace) = true) := by
  obtain ⟨hl, hx⟩ := live_eq_some.1 hs
  have hedit := leaves_edit (E := S.E) db key ⟨K.wrap [], held.enc⟩
  have hlive : ((MemOp.edit key ⟨K.wrap [], held.enc⟩).apply S.E db).live key c.now.ms =
      some ⟨⟨K.wrap [], held.enc⟩, exp⟩ := by
    rw [live_eq_some, hedit.here, hl]
    exact ⟨rfl, hx⟩
  have hn : (vacated S db key ⟨K.wrap [], held.enc⟩).lookup key = none := remove_lookup_self ..
  unfold transfer
  have htake : (View.perform K S ⟨key, held, true⟩ (.inPlace [])).Ends db fun w db' =>
      w = ⟨key, ⟨[], held.enc⟩, true⟩ ∧ db' = (MemOp.edit key ⟨K.wrap [], held.enc⟩).apply S.E db := ⟨rfl, rfl⟩
  refine htake.bind fun w db1 h1 => ?_
  obtain ⟨rfl, rfl⟩ := h1
  have hdrop : (View.drop S c ⟨key, ⟨([] : List β), held.enc⟩, true⟩).Ends
      ((MemOp.edit key ⟨K.wrap [], held.enc⟩).apply S.E db) fun _ db' => db' = vacated S db key ⟨K.wrap [], held.enc⟩ :=
    (ends_del_of_live hlive).bind fun _ _ h => h
  refine hdrop.bind fun _ db2 h2 => ?_
  subst h2
  refine ends_getOrCreate_new (by rw [live, hn]; rfl) fun attached db3 hfits hw _ => ?_
  rw [afterGet_of_absent hn] at hfits
  rw [hput]
  have hadd := (ends_performAll (S := S) (f ⟨[], K.fresh⟩) hw).and (performAll_attached (f ⟨[], K.fresh⟩) _ db3)
  refine hadd.bind fun w' db4 h4 => ?_
  obtain ⟨⟨hkey, -, -, hsees, -⟩, hatt⟩ := h4
  have hexp : liveExp (vacated S db key ⟨K.wrap [], held.enc⟩) key c.now = none := by
    rw [liveExp, live, hn]
    rfl
  have hhere : db4.lookup key = if w'.attached then some ⟨w'.held.obj K, none⟩ else none := by
    have := hsees.here
    rwa [hkey, hexp] at this
  have hiff : w'.attached = true ↔ Fits S key ⟨K.wrap [], K.fresh⟩ (vacated S db key ⟨K.wrap [], held.enc⟩) ∨
      (f ⟨[], K.fresh⟩).any (fun e => !e.isInPlace) = true := by
    rw [hatt, Bool.or_eq_true, hfits]
  refine ⟨rfl, fun k hk => ?_, fun s hs => ?_, ?_⟩
  · have hrest : (vacated S db key ⟨K.wrap [], held.enc⟩).lookup k = db.lookup k :=
      (remove_lookup_ne hk).trans (hedit.frame k hk)
    rw [← hrest]
    exact hsees.others k (hkey ▸ hk)
  · have hs := hhere.symm.trans hs
    split_ifs at hs
    cases hs
    rfl
  · rw [← hiff]
    refine (congrArg (fun o => Option.isSome o = true) hhere).to_iff.trans ?_
    cases w'.attached <;> simp

/-! ### The commands on the last element -/

section
variable {held : Held β} {exp : Option Int}

lemma get_of_live {s : Slot} (hs : db.live key now.ms = some s) :
    (MemM.get now key : MemM S.E (Option Robj)) db = (some s.obj, []) := by
  obtain ⟨hl, hx⟩ := live_eq_some.1 hs
  rw [MemM.get_of_fresh (by rw [isExpired, hl, Option.any_some, hx]), hl]
  rfl

lemma ends_getView_live {α : Type} {Q : α → MemDB → Prop} {f : Except Bytes (Option (View β)) → MemM S.E α}
    (hs : db.live key c.now.ms = some ⟨held.obj K, exp⟩) (h : (f (.ok (some ⟨key, held, true⟩))).Ends db Q) :
    (getView K S c key >>= f).Ends db Q := by
  unfold getView
  rw [bind_assoc]
  refine Traced.ends_bind_of_eq (get_of_live hs) ?_
  have hview : viewOf K key (held.obj K) = .ok ⟨key, held, true⟩ := by
    rw [viewOf, Held.obj, K.view_wrap]
    rfl
  simp only [hview]
  exact h

lemma ends_holdsOther_live {α : Type} {Q : α → MemDB → Prop} {f : Bool → MemM S.E α}
    (hs : db.live key c.now.ms = some ⟨held.obj K, exp⟩) (h : (f false).Ends db Q) :
    (holdsOther K S c key >>= f).Ends db Q := by
  unfold holdsOther
  rw [bind_assoc]
  refine Traced.ends_bind_of_eq (get_of_live hs) ?_
  simp only [Held.obj, K.view_wrap]
  exact h

end

/-- After a move of the only element of a key back into it: if the key is there it has no deadline. -/
structure Remade (S : Settings) (db : MemDB) (key : Bytes) (empty : Value) (fresh enc : Encoding) (promoted : Prop)
    (reply : Bytes) (db' : MemDB) : Prop where
  succeeds : succeeded reply = true
  others : ∀ k, k ≠ key → db'.lookup k = db.lookup k ∨ db'.lookup k = none
  exp : ∀ s, db'.lookup key = some s → s.exp = none
  there : (db'.lookup key).isSome = true ↔ Fits S key ⟨empty, fresh⟩ (vacated S db key ⟨empty, enc⟩) ∨ promoted

lemma pushEdits_publish (side : ListEnd) (h : Held Bytes) (val : Bytes) :
    ((pushEdits S side h val).any fun e => !e.isInPlace) = growWouldPromote S h val := by
  unfold pushEdits
  cases growWouldPromote S h val <;> rfl

lemma setAddEdits_publish (m : Bytes) : ((setAddEdits S ⟨[], .intset⟩ m).any fun e => !e.isInPlace) = true ↔
      ¬ (isCanonicalInt m = true ∧ 0 < S.E.setMaxIntsetEntries) := by
  by_cases h : isCanonicalInt m = true ∧ 0 < S.E.setMaxIntsetEntries
  · simp [setAddEdits, h, Edit.isInPlace]
  have h' : ¬ (isCanonicalInt m = true ∧ ([] : List Bytes).length < S.E.setMaxIntsetEntries) := h
  simp only [setAddEdits, not_mem_nil, if_false, if_neg h', h, not_false_eq_true, iff_true]
  split_ifs <;> rfl

lemma remade_moveElement {val : Bytes} {enc : Encoding} (source target : ListEnd)
    (hs : db.live key c.now.ms = some ⟨⟨.list [val], enc⟩, exp⟩) : (moveElement S c key key source target).Ends db
      (Remade S db key (.list []) .listpack enc (growWouldPromote S ⟨[], .listpack⟩ val = true)) := by
  have hs : db.live key c.now.ms = some ⟨(⟨[val], enc⟩ : Held Bytes).obj listKind, exp⟩ := hs
  refine ends_getView_live hs (ends_holdsOther_live hs ?_)
  have hpop : popEnd source [val] = some (val, []) := by cases source <;> rfl
  simp only [Bool.false_eq_true, if_false, hpop]
  refine Traced.Ends.mono (ends_transfer_last (fun h => pushEdits S target h val) (bulkString val) (fun _ _ => rfl) hs)
    fun r db' h => ?_
  obtain ⟨rfl, hothers, hexp, hiff⟩ := h
  exact ⟨rfl, hothers, hexp, hiff.trans (or_congr Iff.rfl (pushEdits_publish target _ val ▸ Iff.rfl))⟩

lemma remade_smove {enc : Encoding} (hdst : argv.getD 2 [] = argv.getD 1 [])
    (hs : db.live (argv.getD 1 []) c.now.ms = some ⟨⟨.set [argv.getD 3 []], enc⟩, exp⟩) :
    (smoveCommand S c argv).Ends db (Remade S db (argv.getD 1 []) (.set []) .intset enc
        (¬ (isCanonicalInt (argv.getD 3 []) = true ∧ 0 < S.E.setMaxIntsetEntries))) := by
  have hs : db.live (argv.getD 1 []) c.now.ms = some ⟨(⟨[argv.getD 3 []], enc⟩ : Held Bytes).obj setKind, exp⟩ := hs
  unfold smoveCommand
  simp only [hdst]
  refine ends_getView_live hs (ends_holdsOther_live hs ?_)
  have hedits : setRemoveEdits ⟨[argv.getD 3 []], enc⟩ (argv.getD 3 []) = [.inPlace []] := by
    rw [setRemoveEdits, if_pos (mem_singleton.2 rfl), erase_cons_head]
  simp only [Bool.false_eq_true, if_false, mem_singleton, not_true, hedits]
  refine Traced.Ends.mono (ends_transfer_last (fun h => setAddEdits S h (argv.getD 3 [])) (integer 1) (fun _ _ => rfl) hs)
    fun r db' h => ?_
  obtain ⟨rfl, hothers, hexp, hiff⟩ := h
  exact ⟨rfl, hothers, hexp, hiff.trans (or_congr Iff.rfl (setAddEdits_publish _))⟩

end Gopherdis.Encoded
