/-
`MSETNX` and `MSETEX ... NX` of several clients, step by step. A call looks at its keys one after the other and
then sets them, under the operation lock that all calls share; so another call may write between the look and
the set. The calls exclude each other exactly if each, when it has looked at its last key, has its keys to
itself.
-/
import Gopherdis.Lib.Runs
import Gopherdis.Propagate.Msetex

namespace Gopherdis.Command

open Lib Codec Object Store List Function

/-! ## The handlers -/

def msetnxCommand (ctx : Context) (argv : Argv) (db : Keyspace) : Outcome :=
  if (argv.drop 1).length % 2 ≠ 0 then ⟨db, error (ascii "wrong number of arguments for 'msetnx' command"), none⟩
  else
    let pairs := pairUp (argv.drop 1)
    if pairs.any fun p => db.has ctx.now p.1 then ⟨db, integer 0, none⟩
    else ⟨pairs.foldl (fun db p => db.set p.1 (.str p.2)) db, integer 1, none⟩

/-- A batch that is stored if none of its keys exists. -/
structure Batch where
  pairs : List (Bytes × Bytes)
  expiry : Expiry := {}

variable {argv : Argv} {b : Batch}

namespace Batch

def keys (b : Batch) : List Bytes := b.pairs.map Prod.fst

def ofMsetnx (argv : Argv) : Option Batch :=
  if (argv.drop 1).length % 2 ≠ 0 then none else some { pairs := pairUp (argv.drop 1) }

def ofMsetex (argv : Argv) : Option Batch :=
  match msetexArgs argv with
  | .error _ => none
  | .ok (pairs, o) => if o.nx then some ⟨pairs, o.expiry⟩ else none

/-- All of it at once, and whether it was stored. -/
def run (b : Batch) (now : Clock) (db : Keyspace) : Keyspace × Bool :=
  if b.pairs.any fun p => db.has now p.1 then (db, false)
  else (b.pairs.foldl (fun db p => b.expiry.store now p.1 p.2 db) db, true)

end Batch

open Batch

lemma Batch.run_eq (b : Batch) (now : Clock) (db : Keyspace) :
    (⟨(b.run now db).1, integer (if (b.run now db).2 then 1 else 0), none⟩ : Outcome) =
      if b.pairs.any fun p => db.has now p.1 then ⟨db, integer 0, none⟩
      else ⟨b.pairs.foldl (fun db p => b.expiry.store now p.1 p.2 db) db, integer 1, none⟩ := by
  unfold run
  by_cases h : b.pairs.any fun p => db.has now p.1
  · simp [if_pos h, Bool.false_eq_true]
  · simp [if_neg h]

lemma msetnxCommand_batch (h : ofMsetnx argv = some b) (ctx : Context) (db : Keyspace) :
    msetnxCommand ctx argv db = ⟨(b.run ctx.now db).1, integer (if (b.run ctx.now db).2 then 1 else 0), none⟩ := by
  unfold ofMsetnx at h
  split_ifs at h with hodd
  cases h
  rw [run_eq]
  simp only [msetnxCommand, if_neg hodd]
  rfl

lemma msetexArgs_not_both {pairs : List (Bytes × Bytes)} {o : MsetexOpts}
    (h : msetexArgs argv = .ok (pairs, o)) : ¬ (o.nx = true ∧ o.xx = true) := by
  unfold msetexArgs at h
  repeat' split at h
  all_goals first | cases h; done | skip
  all_goals cases h
  assumption

lemma msetexCommand_batch (h : ofMsetex argv = some b) (ctx : Context) (db : Keyspace) :
    msetexCommand ctx argv db = ⟨(b.run ctx.now db).1, integer (if (b.run ctx.now db).2 then 1 else 0), none⟩ := by
  unfold ofMsetex at h
  rcases hargs : msetexArgs argv with e | ⟨pairs, o⟩ <;> rw [hargs] at h
  · cases h
  simp only at h
  split_ifs at h with hnx
  cases h
  have hxx : o.xx = false := by
    by_contra hxx
    exact msetexArgs_not_both hargs ⟨hnx, by simpa using hxx⟩
  have hrefuses : o.refuses ctx.now db pairs = pairs.any fun p => db.has ctx.now p.1 := by
    simp only [MsetexOpts.refuses, hnx, hxx, Bool.true_and, Bool.false_and, Bool.or_false]
  rw [run_eq]
  simp only [msetexCommand, hargs, hrefuses]

/-! ## The calls step by step -/

/-- Where a call is: the pairs it still looks at, those it still sets, or its reply. -/
inductive BatchPhase
  | checking (todo : List (Bytes × Bytes))
  | writing (todo : List (Bytes × Bytes))
  | replied (stored : Bool)
deriving DecidableEq, Repr

/-- The call has found all its keys absent. -/
def BatchPhase.won : BatchPhase → Prop
  | .checking _ => False
  | .writing _ => True
  | .replied stored => stored = true

structure BatchState (ι : Type) where
  db : Keyspace
  phase : ι → BatchPhase

open BatchState

section
variable {ι : Type} [DecidableEq ι] (s : BatchState ι)

variable (i : ι) (p : BatchPhase) (db : Keyspace)

/-- The call `i` gets to another phase and leaves the keyspace `db`. -/
def BatchState.move : BatchState ι := ⟨db, update s.phase i p⟩

@[simp]
lemma BatchState.move_db : (s.move i p db).db = db := rfl

@[simp]
lemma BatchState.move_self : (s.move i p db).phase i = p :=
  update_self ..

@[simp]
lemma BatchState.move_move (p q : BatchPhase) (db db' : Keyspace) : (s.move i p db).move i q db' = s.move i q db' := by
  simp [move, update_idem]

end

section
variable {ι : Type} [DecidableEq ι] (calls : ι → Batch)

variable (db : Keyspace)

def BatchState.start : BatchState ι := ⟨db, fun i => .checking (calls i).pairs⟩

variable (s : BatchState ι)

def batchStep (a : ι × Clock) : Option (BatchState ι) :=
  match s.phase a.1 with
  | .checking [] => some (s.move a.1 (.writing (calls a.1).pairs) s.db)
  | .checking (p :: todo) =>
    some (s.move a.1 (if s.db.has a.2 p.1 then .replied false else .checking todo) s.db)
  | .writing [] => some (s.move a.1 (.replied true) s.db)
  | .writing (p :: todo) => some (s.move a.1 (.writing todo) ((calls a.1).expiry.store a.2 p.1 p.2 s.db))
  | .replied _ => none

/-- Two calls have a key in common. -/
def Meet (i j : ι) : Prop := ∃ k, k ∈ (calls i).keys ∧ k ∈ (calls j).keys

/-- A call that has looked at its last key has its keys to itself: none of them is there, and no call
that is still setting its own has one of them. -/
def Alone (a : ι × Clock) : Prop :=
  s.phase a.1 = .checking [] →
    (∀ k ∈ (calls a.1).keys, s.db.lookup k = none) ∧
      ∀ j todo, s.phase j = .writing todo → ¬ Meet calls a.1 j

/-- What a step does: it looks at a key, it has looked at all of them, it sets one, or it replies. -/
inductive BatchMove (s : BatchState ι) (i : ι) : BatchState ι → Prop
  | look {todo : List (Bytes × Bytes)} {p : BatchPhase} : s.phase i = .checking todo → ¬ p.won →
    BatchMove s i (s.move i p s.db)
  | win : s.phase i = .checking [] → BatchMove s i (s.move i (.writing (calls i).pairs) s.db)
  | set {p : Bytes × Bytes} {todo : List (Bytes × Bytes)} {db : Keyspace} {e : Entry} :
    s.phase i = .writing (p :: todo) → e.val = .str p.2 → Becomes s.db p.1 db (some e) →
    BatchMove s i (s.move i (.writing todo) db)
  | reply : s.phase i = .writing [] → BatchMove s i (s.move i (.replied true) s.db)

variable {calls} {a : ι × Clock}

lemma batchStep_move {s s' : BatchState ι} (h : batchStep calls s a = some s') : BatchMove calls s a.1 s' := by
  unfold batchStep at h
  split at h <;> first | cases h; done | (cases h)
  case h_1 hp => exact .win hp
  case h_2 p todo hp =>
    refine .look hp ?_
    split_ifs <;> simp [BatchPhase.won]
  case h_3 hp => exact .reply hp
  case h_4 p todo hp => exact .set hp rfl ((calls a.1).expiry.store_spec a.2 p.1 p.2 s.db)

/-! ### A call that nobody interrupts -/

lemma checking_alone (i : ι) (now : Clock) : ∀ (todo : List (Bytes × Bytes)) (s : BatchState ι),
    s.phase i = .checking todo → ∃ n, Run (batchStep calls) Free s (List.replicate n (i, now))
      (s.move i (if todo.any fun p => s.db.has now p.1 then .replied false else .writing (calls i).pairs) s.db)
  | [], s, h => by
    refine ⟨1, .cons trivial ?_ (.nil _)⟩
    simp only [batchStep, h]
    rfl
  | p :: todo, s, h => by
    by_cases hp : s.db.has now p.1
    · refine ⟨1, .cons trivial ?_ (.nil _)⟩
      simp [batchStep, h, hp]
    have hstep : batchStep calls s (i, now) = some (s.move i (.checking todo) s.db) := by simp [batchStep, h, hp]
    obtain ⟨n, hn⟩ := checking_alone i now todo (s.move i (.checking todo) s.db) (s.move_self ..)
    rw [move_move, move_db] at hn
    rw [any_cons, Bool.eq_false_iff.2 hp, Bool.false_or]
    exact ⟨n + 1, .cons trivial hstep hn⟩

lemma writing_alone (i : ι) (now : Clock) : ∀ (todo : List (Bytes × Bytes)) (s : BatchState ι),
    s.phase i = .writing todo → ∃ n, Run (batchStep calls) Free s (List.replicate n (i, now))
      (s.move i (.replied true) (todo.foldl (fun db p => (calls i).expiry.store now p.1 p.2 db) s.db))
  | [], s, h => by
    refine ⟨1, .cons trivial ?_ (.nil _)⟩
    simp only [batchStep, h]
    rfl
  | p :: todo, s, h => by
    have hstep : batchStep calls s (i, now) =
        some (s.move i (.writing todo) ((calls i).expiry.store now p.1 p.2 s.db)) := by simp [batchStep, h]
    obtain ⟨n, hn⟩ := writing_alone i now todo (s.move i (.writing todo) _) (s.move_self ..)
    rw [move_move, move_db] at hn
    exact ⟨n + 1, .cons trivial hstep hn⟩

lemma batch_alone (i : ι) (now : Clock) (h : s.phase i = .checking (calls i).pairs) :
    ∃ n, Run (batchStep calls) Free s (List.replicate n (i, now))
      (s.move i (.replied ((calls i).run now s.db).2) ((calls i).run now s.db).1) := by
  obtain ⟨n, hn⟩ := checking_alone i now _ s h
  unfold run
  split_ifs at hn ⊢ with hany
  · exact ⟨n, hn⟩
  obtain ⟨m, hm⟩ := @writing_alone ι _ calls i now _ (s.move i _ s.db) (s.move_self ..)
  rw [move_move, move_db] at hm
  refine ⟨n + m, ?_⟩
  rw [replicate_add]
  exact hn.append hm

/-! ### What a step does -/

lemma BatchMove.frame {s s' : BatchState ι} {i j : ι} (h : BatchMove calls s i s') (hj : j ≠ i) :
    s'.phase j = s.phase j := by
  rcases h with ⟨_, _⟩ | ⟨_⟩ | ⟨_, _, _⟩ | ⟨_⟩ <;> exact update_of_ne hj ..

lemma BatchMove.won {s s' : BatchState ι} {i j : ι} (h : BatchMove calls s i s') (hj : (s.phase j).won) :
    (s'.phase j).won := by
  by_cases hji : j = i
  · subst hji
    rcases h with ⟨hp, _⟩ | ⟨hp⟩ | ⟨_, _, _⟩ | ⟨_⟩
    · rw [hp] at hj
      exact hj.elim
    · rw [hp] at hj
      exact hj.elim
    · rw [s.move_self j]
      trivial
    · rw [s.move_self j]
      rfl
  · rwa [h.frame hji]

/-! ## Calls that have their keys to themselves -/

lemma lastValue_append_one (p : Bytes × Bytes) (k : Bytes) :
    ∀ pairs, lastValue (pairs ++ [p]) k = if p.1 = k then some p.2 else lastValue pairs k
  | [] => by
    rw [nil_append, lastValue, lastValue]
    split_ifs <;> rfl
  | q :: pairs => by
    rw [cons_append, lastValue, lastValue_append_one p k pairs, lastValue]
    split_ifs <;> simp

lemma lastValue_isSome_iff (k : Bytes) : ∀ pairs, (lastValue pairs k).isSome ↔ k ∈ pairs.map Prod.fst
  | [] => by simp [lastValue]
  | p :: pairs => by
    rw [lastValue, Option.isSome_or, Bool.or_eq_true, lastValue_isSome_iff k pairs, map_cons, mem_cons]
    split_ifs with h
    · simp [h]
    · simp [Ne.symm h]

/-- The key holds the string. -/
def Bears (k v : Bytes) : Prop := ∃ e, db.lookup k = some e ∧ e.val = .str v

/-- The pairs a call has set so far. -/
def BatchPhase.Wrote (b : Batch) (done : List (Bytes × Bytes)) : BatchPhase → Prop
  | .checking _ => False
  | .writing todo => b.pairs = done ++ todo
  | .replied stored => stored = true ∧ done = b.pairs

lemma BatchPhase.Wrote.keys {done : List (Bytes × Bytes)} {p : BatchPhase} (h : p.Wrote b done)
    {k v : Bytes} (hk : lastValue done k = some v) : k ∈ b.keys := by
  have hmem : k ∈ done.map Prod.fst := (lastValue_isSome_iff k done).1 (by rw [hk]; rfl)
  cases p with
  | checking => exact h.elim
  | writing todo =>
    rw [Batch.keys, show b.pairs = done ++ todo from h, map_append]
    exact mem_append_left _ hmem
  | replied => rwa [Batch.keys, ← h.2]

/-- What the call has set is there. -/
def Batch.Shown (b : Batch) (p : BatchPhase) (db : Keyspace) : Prop :=
  ∃ done, p.Wrote b done ∧ ∀ k v, lastValue done k = some v → Bears db k v

variable (calls) in
/-- The calls that have found their keys absent have no key in common, and what they have set is there. -/
structure Guarded (s : BatchState ι) : Prop where
  apart : ∀ i j, (s.phase i).won → (s.phase j).won → i ≠ j → ¬ Meet calls i j
  shown : ∀ i, (s.phase i).won → (calls i).Shown (s.phase i) s.db

omit [DecidableEq ι] in
lemma Meet.symm {i j : ι} (h : Meet calls i j) : Meet calls j i := by
  obtain ⟨k, hi, hj⟩ := h
  exact ⟨k, hj, hi⟩

lemma Guarded.of_frame {s s' : BatchState ι} {i : ι} (hs : Guarded calls s)
    (hphase : ∀ j, j ≠ i → s'.phase j = s.phase j)
    (hdb : ∀ j, j ≠ i → (s.phase j).won → ∀ k ∈ (calls j).keys, s'.db.lookup k = s.db.lookup k)
    (happart : (s'.phase i).won → ∀ j, j ≠ i → (s.phase j).won → ¬ Meet calls i j)
    (hshown : (s'.phase i).won → (calls i).Shown (s'.phase i) s'.db) : Guarded calls s' := by
  constructor
  · intro j k hj hk hne
    by_cases hji : j = i
    · subst hji
      rw [hphase k (Ne.symm hne)] at hk
      exact happart hj k (Ne.symm hne) hk
    rw [hphase j hji] at hj
    by_cases hki : k = i
    · subst hki
      exact fun hmeet => happart hk j hji hj hmeet.symm
    · rw [hphase k hki] at hk
      exact hs.apart j k hj hk hne
  · intro j hj
    by_cases hji : j = i
    · subst hji
      exact hshown hj
    rw [hphase j hji] at hj ⊢
    obtain ⟨done, hwrote, hdone⟩ := hs.shown j hj
    refine ⟨done, hwrote, fun k v hk => ?_⟩
    obtain ⟨e, he, hv⟩ := hdone k v hk
    exact ⟨e, (hdb j hji hj k (hwrote.keys hk)).trans he, hv⟩

omit [DecidableEq ι] in
lemma Guarded.start : Guarded calls (.start calls db) :=
  ⟨fun _ _ h => h.elim, fun _ h => h.elim⟩

omit [DecidableEq ι] in
lemma Guarded.present {s : BatchState ι} {j : ι} {k : Bytes} (hs : Guarded calls s)
    (hj : s.phase j = .replied true) (hk : k ∈ (calls j).keys) : s.db.lookup k ≠ none := by
  obtain ⟨done, hwrote, hdone⟩ := hs.shown j (by rw [hj]; rfl)
  rw [hj] at hwrote
  obtain ⟨v, hv⟩ := Option.isSome_iff_exists.1 ((lastValue_isSome_iff k done).2 (hwrote.2 ▸ hk))
  obtain ⟨e, he, _⟩ := hdone k v hv
  rw [he]
  exact Option.some_ne_none e

lemma Guarded.step {s s' : BatchState ι} (hs : Guarded calls s) (ha : Alone calls s a)
    (h : batchStep calls s a = some s') : Guarded calls s' := by
  have hm := batchStep_move h
  refine hs.of_frame (fun j => hm.frame) ?_ ?_ ?_
  · intro j hj hwon k hk
    rcases hm with ⟨_, _⟩ | ⟨_⟩ | ⟨hp, _, hdb⟩ | ⟨_⟩
    case set =>
      -- the key that is set is not one of another call's
      refine hdb.frame k ?_
      rintro rfl
      have hwon' : (s.phase a.1).won := by rw [hp]; trivial
      obtain ⟨done, hwrote, _⟩ := hs.shown a.1 hwon'
      rw [hp] at hwrote
      refine hs.apart a.1 j hwon' hwon (Ne.symm hj) ⟨_, ?_, hk⟩
      rw [Batch.keys, show (calls a.1).pairs = done ++ _ from hwrote]
      simp
    all_goals rfl
  · intro hwon j hj hwonj hmeet
    by_cases hold : (s.phase a.1).won
    · exact hs.apart a.1 j hold hwonj (Ne.symm hj) hmeet
    rcases hm with ⟨_, hnot⟩ | ⟨hp⟩ | ⟨hp, _, _⟩ | ⟨hp⟩
    · rw [s.move_self] at hwon
      exact hnot hwon
    · -- the others are still setting their keys, or have all of them there
      obtain ⟨habsent, hbusy⟩ := ha hp
      cases hpj : s.phase j with
      | checking => rw [hpj] at hwonj; exact hwonj
      | writing todo => exact hbusy j todo hpj hmeet
      | replied stored =>
        rw [hpj] at hwonj
        obtain ⟨k, hki, hkj⟩ := hmeet
        exact hs.present (hpj.trans (congrArg _ hwonj)) hkj (habsent k hki)
    all_goals exact hold (by rw [hp]; trivial)
  · intro hwon
    rcases hm with ⟨_, hnot⟩ | ⟨_⟩ | ⟨hp, he, hdb⟩ | ⟨hp⟩
    · rw [s.move_self] at hwon
      exact (hnot hwon).elim
    · rw [s.move_self]
      refine ⟨[], rfl, fun k v hk => ?_⟩
      cases hk
    case set p todo _ e =>
      obtain ⟨done, hwrote, hdone⟩ := hs.shown a.1 (by rw [hp]; trivial)
      rw [hp] at hwrote
      refine ⟨done ++ [p], ?_, fun k v hk => ?_⟩
      · rw [s.move_self]
        exact (show (calls a.1).pairs = _ from hwrote).trans (by simp)
      · rw [lastValue_append_one] at hk
        split_ifs at hk with hpk
        · cases hk
          exact ⟨e, hpk ▸ hdb.at_key, he⟩
        · obtain ⟨e', he', hv⟩ := hdone k v hk
          exact ⟨e', (hdb.frame k (Ne.symm hpk)).trans he', hv⟩
    · obtain ⟨done, hwrote, hdone⟩ := hs.shown a.1 (by rw [hp]; trivial)
      rw [hp] at hwrote
      rw [s.move_self]
      refine ⟨done, ⟨rfl, ?_⟩, hdone⟩
      rw [show (calls a.1).pairs = done ++ [] from hwrote, append_nil]

variable (calls) in
/-- Of calls that meet pairwise at most one has stored its batch, and the batches that were stored are
there. -/
structure Exclusive (s : BatchState ι) : Prop where
  one : ∀ S : Set ι, S.Pairwise (Meet calls) → {i ∈ S | s.phase i = .replied true}.Subsingleton
  kept : ∀ i, s.phase i = .replied true → ∀ k v, lastValue (calls i).pairs k = some v → Bears s.db k v

lemma Guarded.exclusive {s : BatchState ι} (hs : Guarded calls s) : Exclusive calls s := by
  have hwon : ∀ {i}, s.phase i = .replied true → (s.phase i).won := by
    intro i hi
    rw [hi]
    rfl
  constructor
  · rintro S hS i ⟨hiS, hi⟩ j ⟨hjS, hj⟩
    by_contra hne
    exact hs.apart i j (hwon hi) (hwon hj) hne (hS hiS hjS hne)
  · intro i hi k v hk
    obtain ⟨done, hwrote, hdone⟩ := hs.shown i (hwon hi)
    rw [hi] at hwrote
    exact hdone k v (hwrote.2 ▸ hk)

/-! ## Calls that do not -/

variable (calls) in
/-- A call sets its own keys, and one of its keys is there only if a call that has found it absent has
set it. -/
structure Accounted (s : BatchState ι) : Prop where
  own : ∀ i todo, s.phase i = .writing todo → todo ⊆ (calls i).pairs
  present : ∀ i, ∀ k ∈ (calls i).keys, s.db.lookup k ≠ none → ∃ j, (s.phase j).won ∧ k ∈ (calls j).keys

omit [DecidableEq ι] in
lemma Accounted.start {db : Keyspace} (habsent : ∀ i, ∀ k ∈ (calls i).keys, db.lookup k = none) :
    Accounted calls (.start calls db) := by
  constructor
  · intro i todo h
    cases h
  · intro i k hk hne
    exact absurd (habsent i k hk) hne

lemma Accounted.step {s s' : BatchState ι} (hs : Accounted calls s)
    (h : batchStep calls s a = some s') : Accounted calls s' := by
  have hm := batchStep_move h
  constructor
  · intro j todo hj
    by_cases hji : j = a.1
    · subst hji
      cases hm with
      | look _ hnot =>
        rw [s.move_self] at hj
        exact (hnot (hj ▸ trivial)).elim
      | win =>
        rw [s.move_self] at hj
        cases hj
        exact List.Subset.refl _
      | set hp =>
        rw [s.move_self] at hj
        cases hj
        exact fun q hq => hs.own a.1 _ hp (mem_cons_of_mem _ hq)
      | reply =>
        rw [s.move_self] at hj
        cases hj
    · rw [hm.frame hji] at hj
      exact hs.own j todo hj
  · intro j k hk hne
    by_cases hold : s.db.lookup k = none
    · -- the key has come with this step, so it is the one that was set
      cases hm with
      | @set p _ _ _ hp _ hdb =>
        refine ⟨a.1, (batchStep_move h).won (by rw [hp]; trivial), ?_⟩
        by_cases hkp : k = p.1
        · subst hkp
          exact mem_map_of_mem (hs.own a.1 _ hp mem_cons_self)
        · exact absurd ((hdb.frame k hkp).trans hold) hne
      | look | win | reply => exact absurd hold hne
    · obtain ⟨i, hi, hki⟩ := hs.present j k hk hold
      exact ⟨i, hm.won hi, hki⟩

variable (calls) in
/-- Two calls that meet have both found their keys absent. -/
def Clash : Prop := ∃ i j, i ≠ j ∧ Meet calls i j ∧ (s.phase i).won ∧ (s.phase j).won

lemma Clash.step {s s' : BatchState ι} (hs : Clash calls s) (h : batchStep calls s a = some s') : Clash calls s' := by
  obtain ⟨i, j, hne, hmeet, hi, hj⟩ := hs
  exact ⟨i, j, hne, hmeet, (batchStep_move h).won hi, (batchStep_move h).won hj⟩

lemma Accounted.clash {s s' : BatchState ι} (hs : Accounted calls s)
    (h : batchStep calls s a = some s') (hnot : ¬ Alone calls s a) : Clash calls s' := by
  unfold Alone at hnot
  push Not at hnot
  obtain ⟨hp, hnot⟩ := hnot
  have hnow : (s'.phase a.1).won := by
    rw [batchStep, hp] at h
    cases h
    rw [s.move_self]
    trivial
  have hclash : ∀ j, (s.phase j).won → Meet calls a.1 j → Clash calls s' := by
    intro j hj hmeet
    refine ⟨a.1, j, ?_, hmeet, hnow, (batchStep_move h).won hj⟩
    rintro rfl
    rw [hp] at hj
    exact hj
  by_cases habsent : ∀ k ∈ (calls a.1).keys, s.db.lookup k = none
  · obtain ⟨j, todo, hj, hmeet⟩ := hnot habsent
    exact hclash j (by rw [hj]; trivial) hmeet
  push Not at habsent
  obtain ⟨k, hk, hne⟩ := habsent
  obtain ⟨j, hj, hkj⟩ := hs.present a.1 k hk hne
  exact hclash j hj ⟨k, hk, hkj⟩

lemma alone_or_clash {s s' : BatchState ι} {as : List (ι × Clock)} (h : Run (batchStep calls) Free s as s')
    (hs : Accounted calls s) : Run (batchStep calls) (Alone calls) s as s' ∨ Clash calls s' := by
  induction h with
  | nil => exact .inl (.nil _)
  | @cons s s1 s2 a as _ hstep hrest ih =>
  by_cases ha : Alone calls s a
  · rcases ih (hs.step hstep) with hrun | hclash
    · exact .inl (.cons ha hstep hrun)
    · exact .inr hclash
  · exact .inr (hrest.inv (fun hc _ => hc.step) (hs.clash hstep ha))

omit [DecidableEq ι] in
lemma Clash.not_exclusive {s : BatchState ι} (hs : Clash calls s) (hdone : ∀ i, ∃ b, s.phase i = .replied b) :
    ¬ Exclusive calls s := by
  obtain ⟨i, j, hne, hmeet, hi, hj⟩ := hs
  have hreplied : ∀ {i}, (s.phase i).won → s.phase i = .replied true := by
    intro i hi
    obtain ⟨b, hb⟩ := hdone i
    rw [hb] at hi ⊢
    exact congrArg _ hi
  intro hex
  have hpair : ({i, j} : Set ι).Pairwise (Meet calls) :=
    Set.pairwise_pair.2 fun _ => ⟨hmeet, hmeet.symm⟩
  exact hne (hex.one _ hpair ⟨by simp, hreplied hi⟩ ⟨by simp, hreplied hj⟩)

/-- In a run in which every call has its reply, of the calls that meet at most one has stored its batch and
the batches that were stored are there, exactly if each call had its keys to itself when it had found them
absent. -/
theorem batches_exclusive_iff {db : Keyspace} (habsent : ∀ i, ∀ k ∈ (calls i).keys, db.lookup k = none)
    {as : List (ι × Clock)} {s : BatchState ι} (h : Run (batchStep calls) Free (.start calls db) as s)
    (hdone : ∀ i, ∃ b, s.phase i = .replied b) :
    Exclusive calls s ↔ Run (batchStep calls) (Alone calls) (.start calls db) as s := by
  constructor
  · intro hex
    rcases alone_or_clash h (.start habsent) with hrun | hclash
    · exact hrun
    · exact absurd hex (hclash.not_exclusive hdone)
  · intro hrun
    exact (hrun.inv Guarded.step (.start db)).exclusive

end

def twoGuards : Bool → Batch
  | false => { pairs := [(ascii "a", ascii "1")] }
  | true => { pairs := [(ascii "a", ascii "2")] }

/-- One call after the other. -/
def inTurn : List (Bool × Clock) :=
  [(false, .zero), (false, .zero), (false, .zero), (false, .zero), (true, .zero)]

lemma twoGuards_absent : ∀ i, ∀ k ∈ (twoGuards i).keys, (∅ : Keyspace).lookup k = none := by
  intro i k _
  exact Finmap.lookup_empty k

theorem guards_in_turn_exclusive : ∃ s, Run (batchStep twoGuards) Free (.start twoGuards ∅) inTurn s ∧
    (∀ i, ∃ b, s.phase i = .replied b) ∧ Exclusive twoGuards s := by
  have hrun : ∃ s, runAll (batchStep twoGuards) (.start twoGuards ∅) inTurn = some s := ⟨_, rfl⟩
  obtain ⟨s, hs⟩ := hrun
  have hdone : ∀ i, ∃ b, s.phase i = .replied b := by
    cases hs
    rintro (_ | _)
    · exact ⟨true, rfl⟩
    · exact ⟨false, rfl⟩
  refine ⟨s, .of_runAll hs, hdone, (batches_exclusive_iff twoGuards_absent (.of_runAll hs) hdone).2 ?_⟩
  cases hs
  -- only the second step has to have the key to itself
  have hmoved : ∀ {s : BatchState Bool} {a : Bool × Clock}, s.phase a.1 ≠ .checking [] → Alone twoGuards s a :=
    fun hne h => absurd h hne
  refine .cons (hmoved (by decide)) rfl (.cons ?_ rfl (.cons (hmoved (by decide)) rfl
    (.cons (hmoved (by decide)) rfl (.cons (hmoved (by decide)) rfl (.nil _)))))
  refine fun _ => ⟨twoGuards_absent false, ?_⟩
  rintro (_ | _) todo h <;> cases h

/-- Both calls look at the key before one of them sets it. -/
def bothLook : List (Bool × Clock) :=
  [(false, .zero), (true, .zero), (false, .zero), (true, .zero), (false, .zero), (false, .zero), (true, .zero),
    (true, .zero)]

theorem guards_both_store : ∃ s, Run (batchStep twoGuards) Free (.start twoGuards ∅) bothLook s ∧
    (∀ i, s.phase i = .replied true) ∧ ¬ Exclusive twoGuards s := by
  have hrun : ∃ s, runAll (batchStep twoGuards) (.start twoGuards ∅) bothLook = some s := ⟨_, rfl⟩
  obtain ⟨s, hs⟩ := hrun
  have hdone : ∀ i, s.phase i = .replied true := by
    cases hs
    rintro (_ | _) <;> rfl
  have hclash : Clash twoGuards s :=
    ⟨false, true, by decide, ⟨ascii "a", by decide, by decide⟩, by rw [hdone]; rfl, by rw [hdone]; rfl⟩
  exact ⟨s, .of_runAll hs, hdone, hclash.not_exclusive fun i => ⟨true, hdone i⟩⟩

end Gopherdis.Command
