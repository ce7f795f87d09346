/-
The commands that change a value keep its deadline, as long as they change it in place or publish the new
object with `SetKeepTTL`. The updates of strings store the new value with `Set`, and a move of the only
element of a collection back into it makes the key anew: there the deadline is lost.
-/
import Gopherdis.Encoded.Moves
import Gopherdis.Encoded.Table

namespace Gopherdis.Encoded

open Lib Codec Object Store Command

/-! ## The updates -/

/-- The commands that make a new value of the old one. -/
inductive Update
  | incr
  | decr
  | incrby
  | decrby
  | incrbyfloat
  | append
  | setrange
  | setbit
  | pfadd
  | lpush
  | rpush
  | lset
  | linsert
  | ltrim
  | lrem
  | lmove
  | hset
  | hdel
  | hincrby
  | sadd
  | srem
  | smove
  | zadd
  | zincrby
  | zrem
deriving DecidableEq, Repr

def Update.handler : Update → Handler
  | incr => Encoded.handler "incr" 2 incrCommand
  | decr => Encoded.handler "decr" 2 decrCommand
  | incrby => Encoded.handler "incrby" 3 incrbyCommand
  | decrby => Encoded.handler "decrby" 3 decrbyCommand
  | incrbyfloat => Encoded.handler "incrbyfloat" 3 incrbyfloatCommand
  | append => Encoded.handler "append" 3 appendCommand
  | setrange => Encoded.handler "setrange" 4 setrangeCommand
  | setbit => Encoded.handler "setbit" 4 setbitCommand
  | pfadd => Encoded.handler "pfadd" (-2) pfaddCommand
  | lpush => Encoded.handler "lpush" (-3) lpushCommand
  | rpush => Encoded.handler "rpush" (-3) rpushCommand
  | lset => Encoded.handler "lset" 4 lsetCommand
  | linsert => Encoded.handler "linsert" 5 linsertCommand
  | ltrim => Encoded.handler "ltrim" 4 ltrimCommand
  | lrem => Encoded.handler "lrem" 4 lremCommand
  | lmove => Encoded.handler "lmove" 5 lmoveCommand
  | hset => Encoded.handler "hset" (-4) hsetCommand
  | hdel => Encoded.handler "hdel" (-3) hdelCommand
  | hincrby => Encoded.handler "hincrby" 4 hincrbyCommand
  | sadd => Encoded.handler "sadd" (-3) saddCommand
  | srem => Encoded.handler "srem" (-3) sremCommand
  | smove => Encoded.handler "smove" 4 smoveCommand
  | zadd => Encoded.handler "zadd" (-4) zaddCommand
  | zincrby => Encoded.handler "zincrby" 4 zincrbyCommand
  | zrem => Encoded.handler "zrem" (-3) zremCommand

lemma findHandler_update (u : Update) : findHandler commandTable u.handler.name = some u.handler := by
  cases u <;> rfl

section
variable (S : Settings) (db : MemDB) (argv : Argv) (old : Bytes × Encoding)

/-- The object an update stores in the place of an old string with `Set`. -/
def Update.replacement : Update → Option Robj
  | incr => incremented old.1 1
  | decr => incremented old.1 (-1)
  | incrby => incrementedBy old.1 (argv.getD 2 [])
  | decrby => decrementedBy old.1 (argv.getD 2 [])
  | incrbyfloat => incrementedFloat S old (argv.getD 2 [])
  | append => some (rawString (old.1 ++ argv.getD 2 []))
  | setrange => overwritten old.1 (argv.getD 2 []) (argv.getD 3 [])
  | pfadd => registersWith old.1 (argv.drop 2)
  | _ => none

/-- The state in which it does so. -/
def Update.touched : Update → MemDB
  | pfadd => registersInPlace S db (argv.getD 1 []) old (argv.drop 2)
  | _ => db

/-- An update stores its key without a deadline: a string anew, or a collection that was gone in between. -/
def Update.Loses (key : Bytes) (s : Slot) : Update → Prop
  | lmove => argv.getD 1 [] = key ∧ argv.getD 2 [] = key ∧
      (listEnd? (toUpper (argv.getD 3 []))).isSome ∧ (listEnd? (toUpper (argv.getD 4 []))).isSome ∧
      ∃ val, s.obj.val = .list [val] ∧
        (Fits S key ⟨.list [], .listpack⟩ (vacated S db key ⟨.list [], s.obj.enc⟩) ∨
          growWouldPromote S ⟨[], .listpack⟩ val = true)
  | smove => argv.getD 1 [] = key ∧ argv.getD 2 [] = key ∧ s.obj.val = .set [argv.getD 3 []] ∧
      (Fits S key ⟨.set [], .intset⟩ (vacated S db key ⟨.set [], s.obj.enc⟩) ∨
        ¬ (isCanonicalInt (argv.getD 3 []) = true ∧ 0 < S.E.setMaxIntsetEntries))
  | u => argv.getD 1 [] = key ∧
      Overwritten S key (fun old => u.replacement S argv old) (fun old => u.touched S db argv old) s

end

/-- If the command succeeds and the key is there, its deadline is `d`. -/
def KeepsDeadline {S : Settings} (m : MemM S.E Answer) (db : MemDB) (key : Bytes) (d : Int) : Prop :=
  succeeded (m.result db).reply = true → ∀ s, (m.after db).lookup key = some s → s.exp = some d

variable {S : Settings} {c : Call} {db : MemDB} {argv : Argv} {key : Bytes} {s : Slot} {d : Int}

/-! ## Each of them -/

lemma exp_of_same {db' : MemDB} {s' : Slot} {ms : Int} (h : db'.lookup key = db.lookup key ∨ db'.lookup key = none)
    (hs : db.live key ms = some s) (hs' : db'.lookup key = some s') : s'.exp = s.exp := by
  rcases h with h | h
  · cases (h.trans (MemDB.live_eq_some.1 hs).1).symm.trans hs'
    rfl
  · cases h.symm.trans hs'

section
variable {f : (S : Settings) → Call → Argv → MemM S.E Bytes} {name : String} {arity : Int}

lemma keepsDeadline_iff {P : Prop} (h : (f S c argv).Ends db fun r db' =>
      (succeeded r = true → ∀ s, db'.lookup key = some s → s.exp = some d) ↔ P) :
    KeepsDeadline ((handler name arity f).run S c argv) db key d ↔ P := by
  have hrun : ((handler name arity f).run S c argv).Ends db fun a db' =>
      (succeeded a.reply = true → ∀ s, db'.lookup key = some s → s.exp = some d) ↔ P := h.bind fun _ _ h => h
  exact hrun

variable (hs : db.live key c.now.ms = some s) (hd : s.exp = some d)
include hs hd

lemma keeps_iff_of_tidy (h : (f S c argv).Ends db (Tidy c.now db)) :
    KeepsDeadline ((handler name arity f).run S c argv) db key d ↔
      ¬ (argv.getD 1 [] = key ∧ Overwritten S key (fun _ => none) (fun _ => db) s) := by
  refine keepsDeadline_iff (h.mono fun _ db' htidy => iff_of_true ?_ ?_)
  · exact fun _ s' hs' => (htidy.neat.deadline hs hs').trans hd
  · rintro ⟨-, hlost⟩
    exact not_overwritten (fun _ => rfl) hlost

lemma keeps_iff_of_updated {new : Bytes × Encoding → Option Robj} {touched : Bytes × Encoding → MemDB}
    (h : (f S c argv).Ends db (Updated c.now db (argv.getD 1 []) (Overwritten S (argv.getD 1 []) new touched))) :
    KeepsDeadline ((handler name arity f).run S c argv) db key d ↔
      ¬ (argv.getD 1 [] = key ∧ Overwritten S key new touched s) := by
  refine keepsDeadline_iff (h.mono fun r db' hup => ?_)
  constructor
  · rintro hkeep ⟨rfl, hlost⟩
    obtain ⟨hok, obj, hobj⟩ := hup.loses s hs hlost
    cases hkeep hok _ hobj
  · intro hnot hok s' hs'
    by_cases hk : key = argv.getD 1 []
    · subst hk
      exact (hup.keeps s hs (fun h => hnot ⟨rfl, h⟩) s' hs').trans hd
    · exact (exp_of_same (hup.others key hk) hs hs').trans hd

lemma keeps_iff_of_remade {empty : Value} {fresh enc : Encoding} {promoted : Prop} {src reply : Bytes} {db' : MemDB}
    (h : Remade S db src empty fresh enc promoted reply db') :
    (succeeded reply = true → ∀ s, db'.lookup key = some s → s.exp = some d) ↔
      ¬ (src = key ∧ (Fits S key ⟨empty, fresh⟩ (vacated S db key ⟨empty, enc⟩) ∨ promoted)) := by
  constructor
  · rintro hkeep ⟨rfl, hthere⟩
    obtain ⟨s', hs'⟩ := Option.isSome_iff_exists.1 (h.there.2 hthere)
    cases (hkeep h.succeeds s' hs').symm.trans (h.exp s' hs')
  · intro hnot _ s' hs'
    by_cases hk : key = src
    · subst hk
      exact absurd ⟨rfl, h.there.1 (Option.isSome_iff_exists.2 ⟨s', hs'⟩)⟩ hnot
    · exact (exp_of_same (h.others key hk) hs hs').trans hd

lemma keeps_lmove : KeepsDeadline (Update.lmove.handler.run S c argv) db key d ↔ ¬ Update.lmove.Loses S db argv key s := by
  refine keepsDeadline_iff ?_
  have hrefused : (succeeded syntaxError = true → ∀ s, db.lookup key = some s → s.exp = some d) := by
    intro hok
    cases hok
  unfold lmoveCommand lmoveGeneric Update.Loses
  cases listEnd? (toUpper (argv.getD 3 [])) with
  | none => exact iff_of_true hrefused (by simp)
  | some source =>
  cases listEnd? (toUpper (argv.getD 4 [])) with
  | none => exact iff_of_true hrefused (by simp)
  | some target =>
  simp only [Option.isSome_some, true_and]
  by_cases hlast : ∃ val, OnlyElement db c.now (argv.getD 1 []) (argv.getD 2 []) (.list [val])
  · obtain ⟨val, hdst, enc, exp, hl⟩ := hlast
    rw [hdst]
    refine (remade_moveElement source target hl).mono fun r db' h =>
      (keeps_iff_of_remade hs hd h).trans (not_congr ?_)
    constructor
    · rintro ⟨rfl, hthere⟩
      cases hs.symm.trans hl
      exact ⟨rfl, rfl, val, rfl, hthere⟩
    · rintro ⟨rfl, -, val', hval, hthere⟩
      cases hs.symm.trans hl
      cases hval
      exact ⟨rfl, hthere⟩
  · refine (moved_moveElement _ _ source target).mono fun r db' h => iff_of_true ?_ ?_
    · exact fun _ s' hs' => ((h.neat hlast).deadline hs hs').trans hd
    · rintro ⟨hsrc, hdst, val, hval, -⟩
      obtain ⟨⟨_, enc⟩, exp⟩ := s
      cases hval
      exact hlast ⟨val, hdst.trans hsrc.symm, enc, exp, hsrc ▸ hs⟩

lemma keeps_smove : KeepsDeadline (Update.smove.handler.run S c argv) db key d ↔ ¬ Update.smove.Loses S db argv key s := by
  refine keepsDeadline_iff ?_
  by_cases hlast : OnlyElement db c.now (argv.getD 1 []) (argv.getD 2 []) (.set [argv.getD 3 []])
  · obtain ⟨hdst, enc, exp, hl⟩ := hlast
    refine (remade_smove hdst hl).mono fun r db' h => (keeps_iff_of_remade hs hd h).trans (not_congr ?_)
    constructor
    · rintro ⟨rfl, hthere⟩
      cases hs.symm.trans hl
      exact ⟨rfl, hdst, rfl, hthere⟩
    · rintro ⟨rfl, -, -, hthere⟩
      cases hs.symm.trans hl
      exact ⟨rfl, hthere⟩
  · refine moved_smove.mono fun r db' h => iff_of_true ?_ ?_
    · exact fun _ s' hs' => ((h.neat hlast).deadline hs hs').trans hd
    · rintro ⟨hsrc, hdst, hval, -⟩
      obtain ⟨⟨_, enc⟩, exp⟩ := s
      cases hval
      exact hlast ⟨hdst.trans hsrc.symm, enc, exp, hsrc ▸ hs⟩

end

/-- The updates keep the deadline of every live key, but for those that store a string anew and the moves
that make their key anew. -/
theorem update_keeps_deadline_iff (u : Update) (ha : u.handler.arityOk argv.length = true)
    (hs : db.live key c.now.ms = some s) (hd : s.exp = some d) :
    KeepsDeadline (u.handler.run S c argv) db key d ↔ ¬ u.Loses S db argv key s := by
  cases u with
  | incr => exact keeps_iff_of_updated hs hd (updated_incrGeneric 1)
  | decr => exact keeps_iff_of_updated hs hd (updated_incrGeneric (-1))
  | incrby => exact keeps_iff_of_updated hs hd updated_incrby
  | decrby => exact keeps_iff_of_updated hs hd updated_decrby
  | incrbyfloat => exact keeps_iff_of_updated hs hd updated_incrbyfloat
  | append => exact keeps_iff_of_updated hs hd updated_append
  | setrange => exact keeps_iff_of_updated hs hd updated_setrange
  | setbit => exact keeps_iff_of_updated hs hd updated_setbit
  | pfadd => exact keeps_iff_of_updated hs hd updated_pfadd
  | lpush => exact keeps_iff_of_tidy hs hd (tidy_push .left (Handler.argc_le rfl ha))
  | rpush => exact keeps_iff_of_tidy hs hd (tidy_push .right (Handler.argc_le rfl ha))
  | lset => exact keeps_iff_of_tidy hs hd tidy_lset
  | linsert => exact keeps_iff_of_tidy hs hd tidy_linsert
  | ltrim => exact keeps_iff_of_tidy hs hd tidy_ltrim
  | lrem => exact keeps_iff_of_tidy hs hd tidy_lrem
  | lmove => exact keeps_lmove hs hd
  | hset => exact keeps_iff_of_tidy hs hd (tidy_hsetGeneric "hset" (Handler.argc_le rfl ha))
  | hdel => exact keeps_iff_of_tidy hs hd tidy_hdel
  | hincrby => exact keeps_iff_of_tidy hs hd tidy_hincrby
  | sadd => exact keeps_iff_of_tidy hs hd (tidy_sadd (Handler.argc_le rfl ha))
  | srem => exact keeps_iff_of_tidy hs hd tidy_srem
  | smove => exact keeps_smove hs hd
  | zadd => exact keeps_iff_of_tidy hs hd tidy_zadd
  | zincrby => exact keeps_iff_of_tidy hs hd tidy_zincrby
  | zrem => exact keeps_iff_of_tidy hs hd tidy_zrem

def timedKeys : MemDB :=
  (MemOp.put (ascii "n") ⟨intString 1, some 1000⟩).apply Env.bits
    ((MemOp.put (ascii "l") ⟨⟨.list [ascii "a"], .listpack⟩, some 1000⟩).apply Env.bits .empty)

theorem rpush_keeps_deadline :
    KeepsDeadline (Update.rpush.handler.run .bits .zero [ascii "RPUSH", ascii "l", ascii "b"]) timedKeys (ascii "l") 1000 :=
  (update_keeps_deadline_iff .rpush (by decide) (s := ⟨⟨.list [ascii "a"], .listpack⟩, some 1000⟩) (by decide) rfl).2
    fun h => not_overwritten (fun _ => rfl) h.2

/-- The counter goes on, and no longer ends. -/
theorem incr_loses_deadline : timedKeys.live (ascii "n") Clock.zero.ms = some ⟨intString 1, some 1000⟩ ∧
      ¬ KeepsDeadline (Update.incr.handler.run .bits .zero [ascii "INCR", ascii "n"]) timedKeys (ascii "n") 1000 := by
  refine ⟨by decide, fun h => ?_⟩
  cases h rfl ⟨intString 2, none⟩ (by decide +kernel)

end Gopherdis.Encoded
