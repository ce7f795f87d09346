/-
Replaying `MSETEX`, which is propagated as it was given: the replica counts a relative deadline from
its own clock, and decides anew whether a key is in the way of the batch.
-/
import Gopherdis.Propagate.SetForm

namespace Gopherdis.Command

open Lib Codec Object Store Expiry

/-! ## Storing a batch -/

/-- The value a key has last among the pairs. -/
def lastValue : List (Bytes × Bytes) → Bytes → Option Bytes
  | [], _ => none
  | p :: pairs, k => (lastValue pairs k).or (if p.1 = k then some p.2 else none)

/-- What a batch leaves at a key. -/
def Expiry.stored (x : Expiry) (now : Clock) (pairs : List (Bytes × Bytes)) (k : Bytes) (e : Option Entry) :
    Option Entry :=
  match lastValue pairs k with
  | some v => some ⟨.str v, x.deadline now (deadlineOf e)⟩
  | none => e

lemma Expiry.deadline_deadline (x : Expiry) (now : Clock) (old : Int) :
    x.deadline now (x.deadline now old) = x.deadline now old := by
  unfold deadline
  rcases x.ttl with _ | ttl
  · split_ifs <;> rfl
  · rfl

lemma Expiry.lookup_stored (x : Expiry) (now : Clock) (k : Bytes) : ∀ (pairs : List (Bytes × Bytes)) (db : Keyspace),
      (pairs.foldl (fun db p => x.store now p.1 p.2 db) db).lookup k = x.stored now pairs k (db.lookup k)
  | [], _ => rfl
  | p :: pairs, db => by
    have hstore := x.store_spec now p.1 p.2 db
    rw [List.foldl_cons, lookup_stored x now k pairs, stored, stored, lastValue]
    by_cases hk : p.1 = k
    · subst hk
      rw [hstore.at_key, if_pos rfl]
      rcases lastValue pairs p.1 with _ | v
      · rfl
      · simp [deadlineOf, x.deadline_deadline]
    · rw [hstore.frame k (Ne.symm hk), if_neg hk, Option.or_none]

/-! ## The replay -/

/-- When an `MSETEX` is replayed. If both decide alike, a value that was written is not live at `now'`,
or it is written with the same deadline again. If only the call wrote, what it wrote must have been
there; if only the replay did, what was there must be what it writes, unless it has run out. -/
def MsetexOpts.safe (o : MsetexOpts) (now now' : Clock) (db : Keyspace) (pairs : List (Bytes × Bytes)) : Prop :=
  ∀ k v, lastValue pairs k = some v →
    let old := db.lookup k
    let written : Entry := ⟨.str v, o.expiry.deadline now (deadlineOf old)⟩
    let rewritten : Entry := ⟨.str v, o.expiry.deadline now' (deadlineOf old)⟩
    match o.refuses now db pairs, o.refuses now' db pairs with
    | true, true => True
    | false, false => written.expired now'.ms = true ∨ rewritten = written
    | false, true => written.expired now'.ms = true ∨ old = some written
    | true, false => old.any (·.expired now'.ms) = true ∨ liveEntry now'.ms (some rewritten) = old

def MsetexSafe (now now' : Clock) (db : Keyspace) (argv : Argv) : Prop :=
  ∀ pairs o, msetexArgs argv = .ok (pairs, o) → o.safe now now' db pairs

lemma msetexOptions_error {words : List Bytes} {o : MsetexOpts} {e : Bytes} (h : msetexOptions words o = .error e) :
    succeeded e = false := by
  fun_induction msetexOptions words o
  case case1 => cases h
  case case2 ih | case3 ih | case5 ih | case11 ih => exact ih h
  all_goals (cases h; rfl)

lemma msetexArgs_error {argv : Argv} {e : Bytes} (h : msetexArgs argv = .error e) : succeeded e = false := by
  unfold msetexArgs at h
  rcases hn : parseInt (argv.getD 1 []) with _ | n <;> rw [hn] at h
  · cases h; rfl
  simp only at h
  split_ifs at h
  · cases h; rfl
  · cases h; rfl
  rcases ho : msetexOptions ((argv.drop 2).drop (n.toNat * 2)) {} with e' | o
  · rw [ho] at h
    cases h
    exact msetexOptions_error ho
  rw [ho] at h
  simp only at h
  split_ifs at h
  cases h; rfl

section
variable {ctx : Context} {now' : Clock} {db : Keyspace} {argv : Argv} {pairs : List (Bytes × Bytes)} {o : MsetexOpts}

/-- What the command leaves at a key, at any clock. -/
def MsetexOpts.left (o : MsetexOpts) (now : Clock) (db : Keyspace) (pairs : List (Bytes × Bytes)) (k : Bytes) :
    Option Entry :=
  if o.refuses now db pairs then db.lookup k else o.expiry.stored now pairs k (db.lookup k)

lemma msetexCommand_lookup (h : msetexArgs argv = .ok (pairs, o)) (ctx : Context) (db : Keyspace) (k : Bytes) :
    (msetexCommand ctx argv db).db.lookup k = o.left ctx.now db pairs k := by
  simp only [msetexCommand, h, MsetexOpts.left]
  split_ifs
  · rfl
  · exact o.expiry.lookup_stored ctx.now k pairs db

lemma msetexCommand_reply (h : msetexArgs argv = .ok (pairs, o)) :
    succeeded (msetexCommand ctx argv db).reply = true ∧ (msetexCommand ctx argv db).override = none := by
  simp only [msetexCommand, h]
  split_ifs <;> exact ⟨rfl, rfl⟩

lemma msetex_left_iff (o : MsetexOpts) (now now' : Clock) (db : Keyspace) (pairs : List (Bytes × Bytes)) :
    (∀ k, (o.left now db pairs k).any (·.expired now'.ms) = false →
        liveEntry now'.ms (o.left now' db pairs k) = o.left now db pairs k) ↔ o.safe now now' db pairs := by
  have hor : ∀ k, ((o.left now db pairs k).any (·.expired now'.ms) = false →
        liveEntry now'.ms (o.left now' db pairs k) = o.left now db pairs k) ↔
      ((o.left now db pairs k).any (·.expired now'.ms) = true ∨
        liveEntry now'.ms (o.left now' db pairs k) = o.left now db pairs k) := by
    intro k
    cases (o.left now db pairs k).any (·.expired now'.ms) <;> simp
  refine forall_congr' fun k => ?_
  rcases hv : lastValue pairs k with _ | v
  · -- a key outside the batch
    have hleft : ∀ now, o.left now db pairs k = db.lookup k := by
      intro now
      simp [MsetexOpts.left, stored, hv, ite_self]
    simp only [hleft, reduceCtorEq, false_imp_iff, implies_true, iff_true]
    exact liveEntry_of_not_expired
  rw [hor]
  simp only [MsetexOpts.left, stored, hv, Option.some.injEq, forall_eq']
  cases o.refuses now db pairs <;> cases o.refuses now' db pairs
  · rw [if_neg Bool.false_ne_true, if_neg Bool.false_ne_true, expired_or_shown_iff, Option.some.injEq]
  · rw [if_neg Bool.false_ne_true, if_pos rfl, expired_or_shown_iff]
  · rfl
  simp only [if_true, iff_true]
  cases hx : (db.lookup k).any (·.expired now'.ms) with
  | true => exact .inl rfl
  | false => exact .inr (liveEntry_of_not_expired hx)

lemma msetex_replayed_iff (hsinks : ctx.sinks = true) (hl : baseTable.lookup (argv.headD []) = some msetexCmd)
    (ha : msetexCmd.arityOk argv.length = true) (hne : argv ≠ []) :
    Replayed msetexCmd msetexCommand ctx now' argv db ↔ MsetexSafe ctx.now now' db argv := by
  rcases h : msetexArgs argv with e | ⟨pairs, o⟩
  · refine ⟨fun _ pairs o ho => (by rw [h] at ho; cases ho), fun _ => ?_⟩
    have hout : msetexCommand ctx argv db = ⟨db, e, none⟩ := by simp [msetexCommand, h]
    exact replayed_error hout (msetexArgs_error h) rfl
  have hsafe : MsetexSafe ctx.now now' db argv ↔ o.safe ctx.now now' db pairs := by
    refine ⟨fun hs => hs pairs o h, fun hs pairs' o' h' => ?_⟩
    obtain ⟨rfl, rfl⟩ : pairs = pairs' ∧ o = o' := by simpa [h] using h'
    exact hs
  obtain ⟨hs, hov⟩ := @msetexCommand_reply ctx db argv pairs o h
  have hp : propagated ctx msetexCmd argv (msetexCommand ctx argv db).reply none = some argv :=
    propagated_success rfl hsinks hs none
  rw [hsafe, ← msetex_left_iff, Replayed, hov, hp]
  show Agrees _ _ (replayOne ctx.E now' baseTable db argv) ↔ _
  rw [replayOne_eq hl ha hne rfl]
  refine forall_congr' fun k => ?_
  rw [live_eq, msetexCommand_lookup h, msetexCommand_lookup h]
  rfl

end

end Gopherdis.Command
