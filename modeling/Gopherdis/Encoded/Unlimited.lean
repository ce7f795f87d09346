/-
Handlers under a limit. A value that finds room is stored as if there were no limit; as long as all values of a
command do, the command does what it would do without one.
-/
import Gopherdis.Encoded.Table
import Gopherdis.Lib.Compare

namespace Gopherdis.Store

open Lib Object Traced

/-- The same server, without a limit. -/
def Server.unlimited (sv : Server) : Server := { sv with maxMemory := 0 }

/-- A value of this size is stored at once. -/
def Server.Room (sv : Server) (used size : Int) : Prop :=
  sv.maxMemory ≤ 0 ∨ used + size ≤ sv.maxMemory ∨ (sv.policy ≠ .noEviction ∧ used ≤ sv.maxMemory)

instance (sv : Server) (used size : Int) : Decidable (sv.Room used size) :=
  inferInstanceAs (Decidable (_ ∨ _ ∨ (_ ∧ _)))

variable {E : Env} {sv : Server} {db : MemDB} {size : Int} {key : Bytes} {obj : Robj} {exp : Option Int}

open MemM

lemma freeMemoryIfNeeded_of_le (h : db.used ≤ sv.maxMemory) : (freeMemoryIfNeeded sv : MemM E Bool) db = (true, []) := by
  unfold freeMemoryIfNeeded usedMemory
  rw [read_bind_apply, if_pos (.inr h)]
  rfl

lemma freeMemoryIfNeeded_samples (hpos : 0 < sv.maxMemory) (h : sv.maxMemory < db.used) (hp : sv.policy ≠ .noEviction) :
    ∃ ops, (freeMemoryIfNeeded sv : MemM E Bool).ops db = .draw :: ops := by
  unfold ops freeMemoryIfNeeded usedMemory
  rw [read_bind_apply, if_neg (by omega), if_neg hp, read_bind_apply, evictLoop, usedMemory,
    read_bind_apply, if_neg (by omega)]
  exact ⟨_, rfl⟩

lemma makeRoom_eq_iff : (makeRoom sv size : MemM E Bool) db = (true, []) ↔ sv.Room db.used size := by
  unfold makeRoom usedMemory
  rw [read_bind_apply]
  split_ifs with hlimit
  · by_cases hused : db.used ≤ sv.maxMemory
    · rw [bind_apply_of_eq (freeMemoryIfNeeded_of_le hused), if_pos rfl, read_bind_apply]
      unfold Server.Room
      by_cases hp : sv.policy = .noEviction
      · simp [pure, hp, hlimit.1, hlimit.2]
      · simp [pure, hp, hused]
    constructor
    · intro hall
      by_cases hp : sv.policy = .noEviction
      · have hfree : (freeMemoryIfNeeded sv : MemM E Bool) db = (false, []) := by
          unfold freeMemoryIfNeeded usedMemory
          rw [read_bind_apply, if_neg (by omega), if_pos hp]
          rfl
        rw [bind_apply_of_eq hfree] at hall
        cases hall
      · obtain ⟨ops, hops⟩ := @freeMemoryIfNeeded_samples E sv db hlimit.1 (by omega) hp
        have hnone := congrArg Prod.snd hall
        have hnil : (freeMemoryIfNeeded sv : MemM E Bool).ops db = [] := (List.append_eq_nil_iff.1 hnone).1
        rw [hops] at hnil
        cases hnil
    · rintro (h | h | ⟨-, h⟩)
      · exact absurd h (not_le.2 hlimit.1)
      · exact absurd h (not_le.2 hlimit.2)
      · exact absurd h hused
  · refine iff_of_true rfl ?_
    unfold Server.Room
    omega

/-- A value is stored only where it finds room. -/
def RoomFor (E : Env) (sv : Server) (db : MemDB) : MemOp → Prop
  | .put key slot => sv.Room db.used (estimateObjectSize E key slot.obj)
  | _ => True

instance (E : Env) (sv : Server) (db : MemDB) : ∀ o, Decidable (RoomFor E sv db o)
  | .put _ _ => inferInstanceAs (Decidable (sv.Room _ _))
  | .publish _ _ | .expire _ _ | .remove _ | .edit _ _ | .draw | .flushAll => inferInstanceAs (Decidable True)

lemma store_unlimited : (store sv.unlimited key obj exp : MemM E Bool) db = (true, [.put key ⟨obj, exp⟩]) := by
  unfold store
  rfl

lemma asIf_store : Traced.AsIf (RoomFor E sv) (store sv key obj exp : MemM E Bool) (store sv.unlimited key obj exp) := by
  intro db hroom
  rw [store_unlimited, store, bind_apply_of_eq (makeRoom_eq_iff.2 hroom.1), if_pos rfl]
  rfl

end Gopherdis.Store

namespace Gopherdis.Encoded

open Lib Codec Object Store Command Traced

variable {β : Type} (S : Settings) (sv : Store.Server) (c : Call) (argv : Argv)

/-- The handler does what it would do without a limit, as long as there is room for what it would store. -/
abbrev Unhindered (f : (S : Settings) → MemM S.E β) : Prop :=
  AsIf (RoomFor S.E sv) (f (S.under sv)) (f (S.under sv.unlimited))

lemma performAll_under (K : Kind β) : ∀ (es : List (Edit β)) (w : View β),
    w.performAll K (S.under sv) es = w.performAll K (S.under sv.unlimited) es
  | [], _ => rfl
  | e :: es, w => by
    have hperform : w.perform K (S.under sv) e = w.perform K (S.under sv.unlimited) e := by cases e <;> rfl
    exact congrArg (w.perform K (S.under sv.unlimited) e >>= ·) (funext fun w => performAll_under K es w)

lemma zaddChanged_under (o : ZaddOpts) : ∀ (es : List (Bytes × Score)) (h : Held (Bytes × Score)),
    zaddChanged (S.under sv) o h es = zaddChanged (S.under sv.unlimited) o h es
  | [], _ => rfl
  | e :: es, h => by
    have hedits : zaddEdits (S.under sv) o h e = zaddEdits (S.under sv.unlimited) o h e := rfl
    rw [zaddChanged, zaddChanged, hedits, zaddChanged_under o es]

lemma unhindered_getOrCreate (K : Kind β) (key : Bytes) : Unhindered S sv fun S => getOrCreate K S c key := by
  refine asIf_bind fun r => ?_
  cases r with
  | none => exact asIf_store.bind fun _ => .refl _ _
  | some o => exact .refl _ _

lemma unhindered_storeTimed (x : Expiry) (key : Bytes) (obj : Robj) :
    Unhindered S sv fun S => storeTimed S c x key obj := by
  unfold Unhindered storeTimed
  cases x.ttl with
  | some ttl => exact asIf_store.bind fun _ => .refl _ _
  | none =>
    split_ifs
    · exact asIf_store.bind fun _ => .refl _ _
    · exact .refl _ _
    · exact asIf_store.bind fun _ => .refl _ _

lemma unhindered_set : Unhindered S sv fun S => setCommand S c argv := by
  unfold Unhindered setCommand
  cases setOptions (argv.drop 3) {} with
  | error e => exact .refl _ _
  | ok o =>
  dsimp only
  split_ifs
  · exact .refl _ _
  refine asIf_bind fun old => ?_
  have hctx : c.context (S.under sv) = c.context (S.under sv.unlimited) := rfl
  rw [hctx]
  cases setDecision (c.context (S.under sv.unlimited)) o (old.map Robj.val) with
  | leave reply override => exact .refl _ _
  | write reply => exact (unhindered_storeTimed S sv c _ _ _).bind fun _ => .refl _ _

lemma unhindered_setAll : ∀ pairs, Unhindered S sv fun S => setAll S pairs
  | [] => .refl _ _
  | _ :: pairs => asIf_store.bind fun _ => unhindered_setAll pairs

lemma unhindered_mset : Unhindered S sv fun S => msetCommand S c argv := by
  unfold Unhindered msetCommand
  split_ifs
  · exact .refl _ _
  · exact (unhindered_setAll S sv _).bind fun _ => .refl _ _

lemma unhindered_incr : Unhindered S sv fun S => incrCommand S c argv := by
  refine asIf_bind fun r => ?_
  cases r with
  | error e => exact .refl _ _
  | ok old =>
  dsimp only
  cases old.elim (some 0) fun b => parseInt b.1 with
  | none => exact .refl _ _
  | some current =>
    dsimp only
    split_ifs
    · exact .refl _ _
    · exact asIf_store.bind fun _ => .refl _ _

lemma unhindered_append : Unhindered S sv fun S => appendCommand S c argv := by
  refine asIf_bind fun r => ?_
  cases r with
  | error e => exact .refl _ _
  | ok old => exact asIf_store.bind fun _ => .refl _ _

lemma unhindered_hset : Unhindered S sv fun S => hsetCommand S c argv := by
  unfold Unhindered hsetCommand hsetGeneric
  split_ifs
  · exact .refl _ _
  refine (unhindered_getOrCreate S sv c hashKind _).bind fun r => ?_
  cases r with
  | error e => exact .refl _ _
  | ok p =>
    dsimp only
    rw [performAll_under]
    exact .refl _ _

lemma unhindered_rpush : Unhindered S sv fun S => rpushCommand S c argv := by
  refine (unhindered_getOrCreate S sv c listKind _).bind fun r => ?_
  cases r with
  | error e => exact .refl _ _
  | ok p =>
    dsimp only
    rw [performAll_under]
    exact .refl _ _

lemma unhindered_sadd : Unhindered S sv fun S => saddCommand S c argv := by
  refine (unhindered_getOrCreate S sv c setKind _).bind fun r => ?_
  cases r with
  | error e => exact .refl _ _
  | ok p =>
    dsimp only
    rw [performAll_under]
    exact .refl _ _

lemma unhindered_zadd : Unhindered S sv fun S => zaddCommand S c argv := by
  have hargs : zaddArgs (S.under sv) argv = zaddArgs (S.under sv.unlimited) argv := rfl
  unfold Unhindered zaddCommand
  dsimp only
  rw [hargs]
  rcases zaddArgs (S.under sv.unlimited) argv with e | ⟨o, scores⟩
  · exact .refl _ _
  refine (unhindered_getOrCreate S sv c zsetKind _).bind fun r => ?_
  rcases r with e | ⟨w, created⟩
  · exact .refl _ _
  dsimp only
  split
  · unfold zaddIncr
    dsimp only
    rw [performAll_under]
    exact .refl _ _
  · rw [performAll_under, zaddChanged_under]
    exact .refl _ _

lemma unhindered_delAll : ∀ keys, Unhindered S sv fun S => delAll S c keys
  | [] => .refl _ _
  | _ :: keys => asIf_bind fun _ => (unhindered_delAll keys).bind fun _ => .refl _ _

lemma unhindered_del : Unhindered S sv fun S => delCommand S c argv :=
  (unhindered_delAll S sv c _).bind fun _ => .refl _ _

end Gopherdis.Encoded
