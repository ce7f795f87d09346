/-
Replaying what a script fed. Every call of the script feeds itself, and then the script is fed as well, so the
replay does what the script did twice. For scripts of commands that are fed as they are given, what the replay
leaves is compared with what the script left key by key.
-/
import Gopherdis.Command.Script
import Gopherdis.Propagate.KeyActs

namespace Gopherdis.Command

open Lib Codec Object Store List KeyAct

/-! ## The calls -/

/-- Commands that are fed as they are given, if they are fed; `SET` is one without options. -/
def callTable : Table :=
  [readCmd "get" 2 getCommand, readCmd "strlen" 2 strlenCommand, readCmd "llen" 2 llenCommand,
    readCmd "hget" 3 hgetCommand, readCmd "hlen" 2 hlenCommand, readCmd "scard" 2 scardCommand,
    readCmd "sismember" 3 sismemberCommand, readCmd "zcard" 2 zcardCommand, readCmd "pttl" 2 pttlCommand,
    setCmd, delCmd, unlinkCmd, persistCmd, incrCmd, rpushCmd, saddCmd]

structure Accepted (call : Argv) (c : Command) : Prop where
  found : callTable.lookup (call.headD []) = some c
  arity : c.arityOk call.length = true
  plain : c.name = ascii "set" → call.length = 3

variable (name : Bytes) (call : Argv) (key : Bytes)

/-- What a command of this name does at the keys it names. -/
def verbAct : KeyAct :=
  if name = ascii "set" then .overwrite (some (.str (call.getD 2 [])))
  else if name = ascii "del" then .overwrite none
  else if name = ascii "unlink" then .overwrite none
  else if name = ascii "persist" then .persist
  else if name = ascii "incr" then .count
  else if name = ascii "rpush" then .push (call.drop 2)
  else if name = ascii "sadd" then .add (call.drop 2)
  else .look

def verbKeys : List Bytes :=
  if name = ascii "del" then call.drop 1 else if name = ascii "unlink" then call.drop 1 else [call.getD 1 []]

def actOf : KeyAct :=
  if key ∈ verbKeys (toLowerASCII (call.headD [])) call then verbAct (toLowerASCII (call.headD [])) call else .look

/-- What the calls of a script do at a key. -/
def actsOf (calls : List Argv) (key : Bytes) : List KeyAct := calls.map fun call => actOf call key

def leftAt (calls : List Argv) (key : Bytes) (x : Option Entry) : Option Entry :=
  (actsOf calls key).foldl KeyAct.apply x

/-! ## What the handlers do -/

/-- No key is past its deadline. -/
def Unexpired (now : Clock) (db : Keyspace) : Prop := ∀ k e, db.lookup k = some e → e.expired now.ms = false

/-- The handler does `act` at `keys`, and nothing when it refuses. -/
structure Does (act : KeyAct) (keys : List Bytes) (db : Keyspace) (o : Outcome) : Prop where
  acts : ∀ k, o.db.lookup k = if k ∈ keys then act.apply (db.lookup k) else db.lookup k
  plain : o.override = none
  refused : succeeded o.reply = false → o.db = db

lemma vacuous {b : Bool} {P : Prop} (h : b = true) (h' : b = false) : P := Bool.noConfusion (h.symm.trans h')

section
variable {now : Clock} {db : Keyspace} {key : Bytes} {ctx : Context} {call : Argv}

lemma Unexpired.get (h : Unexpired now db) (key : Bytes) : db.get now key = (db, (db.lookup key).map Entry.val) := by
  rcases hl : db.lookup key with _ | e
  · exact get_of_none hl
  · exact get_of_live (live_of_lookup hl (h key e hl))

lemma Does.of_becomes {act : KeyAct} {o : Outcome} {x : Option Entry} (hl : db.lookup key = x)
    (h : Becomes db key o.db (act.apply x)) (hplain : o.override = none)
    (hrefused : succeeded o.reply = false → o.db = db) : Does act [key] db o := by
  refine ⟨fun k => ?_, hplain, hrefused⟩
  by_cases hk : k = key
  · subst hk
    rw [if_pos (mem_singleton_self _), h.at_key, hl]
  · rw [if_neg (by simpa using hk), h.frame k hk]

lemma Does.look (db : Keyspace) (reply : Bytes) (keys : List Bytes) : Does .look keys db ⟨db, reply, none⟩ :=
  ⟨fun k => by rw [KeyAct.apply, ite_self], rfl, fun _ => rfl⟩

section
variable (h : Unexpired ctx.now db)
include h

lemma readGeneric_does {α : Type} (view : Value → Option α) (absent : Bytes) (found : Argv → α → Bytes) :
    Does .look [call.getD 1 []] db (readGeneric view absent found ctx call db) := by
  simp only [readGeneric, h.get]
  cases db.lookup (call.getD 1 []) with
  | none | some => exact .look ..

lemma setCommand_does (hplain : call.length = 3) :
    Does (.overwrite (some (.str (call.getD 2 [])))) [call.getD 1 []] db (setCommand ctx call db) := by
  have hset : setCommand ctx call db = ⟨db.set (call.getD 1 []) (.str (call.getD 2 [])), ok, none⟩ := by
    have hopts : call.drop 3 = [] := drop_eq_nil_of_le hplain.le
    simp only [setCommand, hopts, setOptions, h.get, setDecision]
    rfl
  rw [hset]
  exact .of_becomes rfl (Becomes.insert db _ _) rfl (vacuous rfl)

lemma persistCommand_does : Does .persist [call.getD 1 []] db (persistCommand ctx call db) := by
  have hspec := persist_spec db ctx.now (call.getD 1 [])
  rcases hl : db.lookup (call.getD 1 []) with _ | e <;> rw [hl] at hspec
  · exact .of_becomes hl hspec rfl (vacuous rfl)
  · simp only [Option.map_some, h _ e hl, Bool.false_eq_true, if_false] at hspec
    exact .of_becomes hl hspec rfl (vacuous rfl)

lemma incrCommand_does : Does .count [call.getD 1 []] db (incrCommand ctx call db) := by
  have hget := h.get (call.getD 1 [])
  rcases hl : db.lookup (call.getD 1 []) with _ | ⟨b | _ | _ | _ | _ | _, exp⟩ <;> rw [hl] at hget <;>
    simp only [incrCommand, incrGeneric, hget, Option.map_none, Option.map_some]
  case none => exact .of_becomes hl (Becomes.insert db _ _) rfl (vacuous rfl)
  case some.str =>
    cases hn : parseInt b with
    | none => exact .of_becomes hl (Becomes.keep (by simp only [hl, KeyAct.apply, hn])) rfl fun _ => rfl
    | some n =>
      by_cases hlt : n < 2 ^ 63 - 1
      · have hfits : ¬ ((0 : Int) < 1 ∧ 2 ^ 63 - 1 - 1 < n ∨ (1 : Int) < 0 ∧ n < -2 ^ 63 - 1) := by omega
        simp only [if_neg hfits]
        refine .of_becomes hl ?_ rfl (vacuous rfl)
        simp only [KeyAct.apply, hn, if_pos hlt]
        exact Becomes.insert db _ _
      · have hfull : (0 : Int) < 1 ∧ 2 ^ 63 - 1 - 1 < n ∨ (1 : Int) < 0 ∧ n < -2 ^ 63 - 1 := by omega
        simp only [if_pos hfull]
        exact .of_becomes hl (Becomes.keep (by simp only [hl, KeyAct.apply, hn, if_neg hlt])) rfl fun _ => rfl
  all_goals exact .of_becomes hl (Becomes.keep hl) rfl fun _ => rfl

/-- The handlers that add to a collection. -/
lemma addTo_does (view : Value → Option (List Bytes)) (wrap : List Bytes → Value) (grow : List Bytes → List Bytes)
    {act : KeyAct} (reply : List Bytes → List Bytes → Int)
    (hnone : act.apply none = some ⟨wrap (grow []), 0⟩)
    (hsome : ∀ e : Entry, act.apply (some e) =
      some ((view e.val).elim e fun xs => ⟨wrap (grow xs), e.expireAt⟩)) {key : Bytes} :
    Does act [key] db (match getOrCreate view [] ctx.now db key with
      | (db, .error e) => ⟨db, e, none⟩
      | (db, .ok xs) => ⟨db.setKeepTTL key (wrap (grow xs)), integer (reply xs (grow xs)), none⟩) := by
  have hget := h.get key
  rcases hl : db.lookup key with _ | e <;> rw [hl] at hget <;>
    simp only [getOrCreate, hget, Option.map_none, Option.map_some]
  · refine .of_becomes hl ?_ rfl (vacuous rfl)
    simp only [Keyspace.setKeepTTL, hl, hnone]
    exact Becomes.insert db _ _
  · have hact := hsome e
    cases hv : view e.val with
    | none =>
      rw [hv] at hact
      exact .of_becomes hl (Becomes.keep (hl.trans hact.symm)) rfl fun _ => rfl
    | some xs =>
      refine .of_becomes hl ?_ rfl (vacuous rfl)
      rw [hact, hv]
      simp only [Option.elim_some, Keyspace.setKeepTTL, hl]
      exact Becomes.insert db _ _

lemma rpushCommand_does : Does (.push (call.drop 2)) [call.getD 1 []] db (rpushCommand ctx call db) := by
  refine addTo_does h listOf .list (· ++ call.drop 2) (fun _ xs => xs.length) rfl ?_
  rintro ⟨_ | _ | _ | _ | _ | _, exp⟩ <;> rfl

lemma saddCommand_does : Does (.add (call.drop 2)) [call.getD 1 []] db (saddCommand ctx call db) := by
  refine addTo_does h setOf .set ((call.drop 2).foldl setAdd) (fun old ms => ms.length - old.length) rfl ?_
  rintro ⟨_ | _ | _ | _ | _ | _, exp⟩ <;> rfl

end

lemma delKeys_lookup (now : Clock) (k : Bytes) : ∀ (keys : List Bytes) (s : Keyspace × Int),
    (keys.foldl (fun s key => ((s.1.del now key).1, if (s.1.del now key).2 then s.2 + 1 else s.2)) s).1.lookup k =
      if k ∈ keys then none else s.1.lookup k
  | [], _ => by simp
  | key :: keys, s => by
    rw [foldl_cons, delKeys_lookup now k keys]
    have hdel := del_spec s.1 now key
    by_cases hk : k = key
    · subst hk
      simp [hdel.at_key]
    · simp [hk, hdel.frame k hk]

lemma delCommand_does (ctx : Context) (call : Argv) (db : Keyspace) :
    Does (.overwrite none) (call.drop 1) db (delCommand ctx call db) :=
  ⟨fun k => delKeys_lookup ctx.now k _ (db, 0), rfl, vacuous rfl⟩

end

/-! ## One call -/

/-- What a command of the table is, as far as its calls need. -/
structure Handles (call : Argv) (c : Command) (f : Context → Argv → Keyspace → Outcome) : Prop where
  handler : c.handler = onKeyspace f
  does : ∀ {ctx db}, Unexpired ctx.now db → Does (verbAct c.name call) (verbKeys c.name call) db (f ctx call db)
  reads : c.isWrite = false → verbAct c.name call = .look
  verbatim : ∀ E now reply, normalizeForPropagation E now c.name call reply = some call

section
variable {call : Argv} {c : Command}

lemma normalizeSet_plain (E : Env) (now : Int) (h : call.length = 3) : normalizeSet E now call = call := by
  obtain ⟨name, key, val, rfl⟩ := length_eq_three.1 h
  rfl

lemma Accepted.handles (h : Accepted call c) : ∃ f, Handles call c f := by
  have hmem : c ∈ callTable := mem_of_find?_eq_some h.found
  simp only [callTable, mem_cons, not_mem_nil, or_false] at hmem
  rcases hmem with rfl | rfl | rfl | rfl | rfl | rfl | rfl | rfl | rfl | rfl | rfl | rfl | rfl | rfl | rfl | rfl
  iterate 8 exact ⟨_, rfl, fun hdb => readGeneric_does hdb .., fun _ => rfl, fun _ _ _ => rfl⟩
  · exact ⟨pttlCommand, rfl, fun _ => .look .., fun _ => rfl, fun _ _ _ => rfl⟩
  · exact ⟨setCommand, rfl, fun hdb => setCommand_does hdb (h.plain rfl), vacuous rfl,
      fun E now _ => congrArg some (normalizeSet_plain E now (h.plain rfl))⟩
  · exact ⟨delCommand, rfl, fun _ => delCommand_does .., vacuous rfl, fun _ _ _ => rfl⟩
  · exact ⟨unlinkCommand, rfl, fun _ => delCommand_does .., vacuous rfl, fun _ _ _ => rfl⟩
  · exact ⟨persistCommand, rfl, persistCommand_does, vacuous rfl, fun _ _ _ => rfl⟩
  · exact ⟨incrCommand, rfl, incrCommand_does, vacuous rfl, fun _ _ _ => rfl⟩
  · exact ⟨rpushCommand, rfl, rpushCommand_does, vacuous rfl, fun _ _ _ => rfl⟩
  · exact ⟨saddCommand, rfl, saddCommand_does, vacuous rfl, fun _ _ _ => rfl⟩

lemma Accepted.name_eq (h : Accepted call c) : c.name = toLowerASCII (call.headD []) := by
  simpa using find?_some h.found

lemma Accepted.ne_nil (h : Accepted call c) : call ≠ [] := by
  rintro rfl
  have hall : ∀ c ∈ callTable, c.arityOk 0 = false := by decide
  exact absurd h.arity (by rw [length_nil, hall c (mem_of_find?_eq_some h.found)]; exact Bool.false_ne_true)

lemma Accepted.found_beside (h : Accepted call c) (eng : Engine) :
    (scriptTable eng callTable).lookup (call.headD []) = some c := by
  have hne : ∀ c ∈ callTable, c.name ≠ ascii "eval" ∧ c.name ≠ ascii "evalsha" := by decide
  obtain ⟨heval, hevalsha⟩ := hne c (mem_of_find?_eq_some h.found)
  rw [h.name_eq] at heval hevalsha
  rw [Table.lookup, scriptTable, find?_cons_of_neg (by simpa [evalCmd] using heval.symm),
    find?_cons_of_neg (by simpa [evalshaCmd] using hevalsha.symm)]
  exact h.found

lemma Accepted.push_ne_nil (h : Accepted call c) {key : Bytes} {vs : List Bytes} (hpush : actOf call key = .push vs) :
    vs ≠ [] := by
  have hrpush : ∀ c ∈ callTable, c.name = ascii "rpush" → c.arity = -3 := by decide
  unfold actOf at hpush
  split_ifs at hpush
  unfold verbAct at hpush
  split_ifs at hpush with _ _ _ _ _ hname
  obtain rfl := KeyAct.push.inj hpush
  have harity := h.arity
  rw [Command.arityOk, hrpush c (mem_of_find?_eq_some h.found) (h.name_eq.trans hname)] at harity
  simp at harity ⊢
  omega

/-- The context lets every call through. -/
structure Serves (ctx : Context) : Prop where
  permits : ∀ name, ctx.canExecute name = true
  here : ∀ key, ctx.moved key = none

lemma serves_replay (E : Env) (now : Clock) : Serves (replayContext E now) := ⟨fun _ => rfl, fun _ => rfl⟩

lemma Serves.dispatch {ctx : Context} (hctx : Serves ctx) {t : Table} {argv : Argv}
    (hl : t.lookup (argv.headD []) = some c) (hne : argv ≠ []) (ha : c.arityOk argv.length = true) {s : Session}
    (hs : s.inMulti = false) : dispatch ctx t argv s = .inr c := by
  have hpermits : ctx.permits c = true := by simp [Context.permits, hctx.permits]
  have hhere : ctx.redirect c argv = none := by
    unfold Context.redirect
    split_ifs
    · rfl
    · cases (argv.drop 1).head? with
      | none => rfl
      | some key => exact hctx.here key
  rw [(dispatch_permitted hl hne ha hpermits).2 hhere, if_neg (by simp [hs])]

variable {ctx : Context} {s : Session} (hctx : Serves ctx) (h : Accepted call c) (hs : s.inMulti = false)
  (hdb : Unexpired ctx.now s.db)
include hctx h hs hdb

/-- What a call leaves; it feeds itself, or has done nothing. -/
lemma execute_call : (∀ k, (execute ctx callTable call s).2.db.lookup k = (actOf call k).apply (s.db.lookup k)) ∧
    (execute ctx callTable call s).2.tx = s.tx ∧ (execute ctx callTable call s).2.override = none ∧
    ∃ out, (execute ctx callTable call s).2.fed = s.fed ++ out ∧
      (ctx.sinks = true → out = [call] ∨ out = [] ∧ (execute ctx callTable call s).2.db = s.db) := by
  obtain ⟨f, hf⟩ := h.handles
  have hdoes := hf.does hdb
  rw [execute_inr (hctx.dispatch h.found h.ne_nil h.arity hs), Command.run, hf.handler]
  have hover : (onKeyspace f ctx call { s with override := none }).2.override = none := by
    show (f ctx call s.db).override.orElse _ = none
    rw [hdoes.plain]
    rfl
  refine ⟨fun k => ?_, rfl, hover, _, rfl, fun hsinks => ?_⟩
  · show (f ctx call s.db).db.lookup k = _
    rw [hdoes.acts, h.name_eq, actOf]
    split_ifs <;> rfl
  · rw [hover]
    show (propagated ctx c call (f ctx call s.db).reply none).toList = [call] ∨
      (propagated ctx c call (f ctx call s.db).reply none).toList = [] ∧ (f ctx call s.db).db = s.db
    unfold propagated
    by_cases hfed : c.isWrite = true ∧ succeeded (f ctx call s.db).reply = true
    · rw [if_pos ⟨hfed.1, hfed.2, hsinks⟩, Option.getD_none, hf.verbatim]
      exact .inl rfl
    · rw [if_neg fun h => hfed ⟨h.1, h.2.1⟩]
      refine .inr ⟨rfl, ?_⟩
      by_cases hw : c.isWrite = true
      · exact hdoes.refused (by simpa [hw] using hfed)
      · refine Finmap.ext_lookup fun k => (hdoes.acts k).trans ?_
        rw [hf.reads (by simpa using hw), KeyAct.apply, ite_self]

end

/-! ## The calls of a script -/

lemma Unexpired.after {now : Clock} {db db' : Keyspace} (h : Unexpired now db)
    (hdb' : ∀ k, ∃ a : KeyAct, db'.lookup k = a.apply (db.lookup k)) : Unexpired now db' := by
  intro k e he
  obtain ⟨a, ha⟩ := hdb' k
  rcases apply_expireAt (ha.symm.trans he) with h0 | ⟨e', hl, h'⟩
  · simp [Entry.expired, h0]
  · rw [Entry.expired, h']
    exact h k e' hl

lemma replayAll_append (E : Env) (now : Clock) (T : Table) (db : Keyspace) (cmds cmds' : List Argv) :
    replayAll E now T db (cmds ++ cmds') = replayAll E now T (replayAll E now T db cmds) cmds' :=
  foldl_append

/-- A call that is fed does on replay what it did. -/
lemma replayOne_call {call : Argv} {c : Command} (h : Accepted call c) (eng : Engine) (E : Env) {now : Clock}
    {db : Keyspace} (hdb : Unexpired now db) (k : Bytes) :
    (replayOne E now (scriptTable eng callTable) db call).lookup k = (actOf call k).apply (db.lookup k) := by
  obtain ⟨f, hf⟩ := h.handles
  rw [replayOne_eq (h.found_beside eng) h.arity h.ne_nil hf.handler, (hf.does hdb).acts, h.name_eq, actOf]
  split_ifs <;> rfl

/-- The calls of a script are done one after the other at every key, and replaying what they fed does the same. -/
lemma runCalls_acts {ctx : Context} (hctx : Serves ctx) (now : Clock) : ∀ {calls : List Argv} {s : Session},
    (∀ call ∈ calls, ∃ c, Accepted call c) → s.inMulti = false → s.override = none → Unexpired ctx.now s.db →
    Unexpired now s.db →
    (∀ k, (runCalls ctx callTable s calls).2.db.lookup k = leftAt calls k (s.db.lookup k)) ∧
      (runCalls ctx callTable s calls).2.override = none ∧ Unexpired now (runCalls ctx callTable s calls).2.db ∧
      ∃ out, (runCalls ctx callTable s calls).2.fed = s.fed ++ out ∧ ∀ E eng, ctx.sinks = true →
        replayAll E now (scriptTable eng callTable) s.db out = (runCalls ctx callTable s calls).2.db
  | [], s, _, _, hover, _, hdb' => ⟨fun _ => rfl, hover, hdb', [], (append_nil _).symm, fun _ _ _ => rfl⟩
  | call :: calls, s, hcalls, hs, hover, hdb, hdb' => by
    obtain ⟨c, hc⟩ := hcalls call mem_cons_self
    obtain ⟨hacts, htx, hover', out, hfed, hout⟩ := execute_call hctx hc hs hdb
    have hafter : ∀ k, ∃ a : KeyAct, (execute ctx callTable call s).2.db.lookup k = a.apply (s.db.lookup k) :=
      fun k => ⟨_, hacts k⟩
    have hs' : (execute ctx callTable call s).2.inMulti = false := by rw [Session.inMulti, htx]; exact hs
    obtain ⟨hacts', hovers, hdbs, outs, hfeds, houts⟩ := runCalls_acts hctx now
      (fun call h => hcalls call (mem_cons_of_mem _ h)) hs' hover' (hdb.after hafter) (hdb'.after hafter)
    refine ⟨fun k => ?_, hovers, hdbs, out ++ outs, ?_, fun E eng hsinks => ?_⟩
    · show (runCalls ctx callTable (execute ctx callTable call s).2 calls).2.db.lookup k = _
      rw [hacts', hacts]
      rfl
    · show (runCalls ctx callTable (execute ctx callTable call s).2 calls).2.fed = _
      rw [hfeds, hfed, append_assoc]
    · -- the call has fed itself, or there was nothing to feed
      have hone : replayAll E now (scriptTable eng callTable) s.db out = (execute ctx callTable call s).2.db := by
        rcases hout hsinks with rfl | ⟨rfl, hsame⟩
        · exact Finmap.ext_lookup fun k => (replayOne_call hc eng E hdb' k).trans (hacts k).symm
        · exact hsame.symm
      rw [replayAll_append, hone]
      exact houts E eng hsinks

/-! ## The script -/

/-- What running the script of a command again does. -/
def rerun (E : Env) (now : Clock) (eng : Engine) (t : Table) (argv : Argv) (db : Keyspace) : Keyspace :=
  match eng.scriptOf argv with
  | .error _ => db
  | .ok script => (runCalls (replayContext E now) t (.start db none) script.calls).2.db

lemma arityOk_script {c : Command} (har : c.arity = -3) {argc : Nat} (h : 3 ≤ argc) : c.arityOk argc = true := by
  simp only [Command.arityOk, har]
  simp
  omega

lemma replayOne_script (E : Env) (now : Clock) (eng : Engine) (t : Table) {argv : Argv} (h : isScript argv)
    (hargs : 3 ≤ argv.length) (db : Keyspace) :
    replayOne E now (scriptTable eng t) db argv = rerun E now eng t argv db := by
  obtain ⟨c, hl, har, -, -, hhandler⟩ := scriptTable_lookup eng t h
  have hne : argv ≠ [] := ne_nil_of_length_pos (by omega)
  rw [replayOne, execute_inr (dispatch_replay hl (arityOk_script har hargs) hne E now db)]
  show (c.handler _ argv { Session.start db none with override := none }).2.db = _
  rw [hhandler, scriptHandler, rerun]
  rcases eng.scriptOf argv with e | script
  all_goals rfl

/-- At every key the script overwrites what is there, or does not make it grow. -/
def Settles (calls : List Argv) (db : Keyspace) : Prop :=
  ∀ key, (∃ v, .overwrite v ∈ actsOf calls key) ∨ ¬ Grow (actsOf calls key) (db.lookup key)

section
variable {calls : List Argv} {db : Keyspace} (hcalls : ∀ call ∈ calls, ∃ c, Accepted call c)
  (hlen : calls.length < 2 ^ 63 - 1)
include hcalls hlen

lemma twice_at_key_iff (key : Bytes) :
    leftAt calls key (leftAt calls key (db.lookup key)) = leftAt calls key (db.lookup key) ↔
      (∃ v, .overwrite v ∈ actsOf calls key) ∨ ¬ Grow (actsOf calls key) (db.lookup key) := by
  by_cases hover : ∃ v, .overwrite v ∈ actsOf calls key
  · obtain ⟨v, hv⟩ := hover
    exact iff_of_true (twice_of_overwrite hv _ _) (.inl ⟨v, hv⟩)
  rw [or_iff_right hover]
  refine twice_iff ?_ ?_ ?_ _
  · intro a ha
    cases a with
    | overwrite v => exact absurd ⟨v, ha⟩ hover
    | look | persist | count | push | add => rfl
  · intro vs hvs
    obtain ⟨call, hcall, hact⟩ := mem_map.1 hvs
    obtain ⟨c, hc⟩ := hcalls call hcall
    exact hc.push_ne_nil hact
  · rw [actsOf, length_map]
    omega

/-- The script done once more, on what it left. -/
lemma rerun_iff {eng : Engine} {argv : Argv} {script : Script} (hfound : eng.scriptOf argv = .ok script)
    (hscript : script.calls = calls) (E : Env) {now : Clock} {db' : Keyspace} (hexp : Unexpired now db')
    (hdb' : ∀ k, db'.lookup k = leftAt calls k (db.lookup k)) :
    rerun E now eng callTable argv db' = db' ↔ Settles calls db := by
  have hacts := (runCalls_acts (serves_replay E now) now (s := .start db' none) hcalls rfl rfl hexp hexp).1
  have hkey (k : Bytes) : (rerun E now eng callTable argv db').lookup k =
      leftAt calls k (leftAt calls k (db.lookup k)) := by
    rw [rerun, hfound, ← hdb' k]
    subst hscript
    exact hacts k
  constructor
  · intro h key
    rw [← twice_at_key_iff hcalls hlen, ← hkey, h, hdb']
  · intro h
    refine Finmap.ext_lookup fun key => ?_
    rw [hkey, hdb']
    exact (twice_at_key_iff hcalls hlen key).2 (h key)

end

/-- Replaying what the command fed gives the keyspace it left. -/
def PropagatedOnce (eng eng' : Engine) (ctx : Context) (now : Clock) (argv : Argv) (db : Keyspace)
    (tx : Option TxState) : Prop :=
  replayAll ctx.E now (scriptTable eng' callTable) db
      (execute ctx (scriptTable eng callTable) argv (.start db tx)).2.fed =
    (execute ctx (scriptTable eng callTable) argv (.start db tx)).2.db

/-- An engine for which every text is the same script, with a fixed reply. -/
def fixedEngine (calls : List Argv) (reply : Bytes) : Engine :=
  ⟨fun _ _ _ => .ok ⟨calls, fun _ => .ok reply⟩, fun _ _ _ => none⟩

def evalArgv : Argv := [ascii "EVAL", ascii "script", ascii "0"]

def recountCalls : List Argv :=
  [[ascii "SET", ascii "k", ascii "0"], [ascii "INCR", ascii "k"], [ascii "SADD", ascii "s", ascii "a"]]

def recountEngine : Engine := fixedEngine recountCalls (integer 1)

lemma recountCalls_accepted : ∀ call ∈ recountCalls, ∃ c, Accepted call c := by
  simp only [recountCalls, forall_mem_cons, not_mem_nil, false_implies, implies_true, and_true]
  exact ⟨⟨setCmd, rfl, rfl, fun _ => rfl⟩, ⟨incrCmd, rfl, rfl, by decide⟩, ⟨saddCmd, rfl, rfl, by decide⟩⟩

lemma recountCalls_settle : Settles recountCalls ∅ := by
  intro key
  by_cases hk : key = ascii "k"
  · subst hk
    exact .inl ⟨some (.str (ascii "0")), by decide⟩
  -- only `SADD` is left, if it names the key
  have hacts : actsOf recountCalls key = [.look, .look, if key ∈ [ascii "s"] then .add [ascii "a"] else .look] := by
    have hnot : key ∉ [ascii "k"] := by simpa using hk
    exact congrArg₂ cons (if_neg hnot) (congrArg₂ cons (if_neg hnot) rfl)
  rw [hacts]
  refine .inr ?_
  split_ifs <;> exact Bool.false_ne_true

def incrEngine : Engine := fixedEngine [[ascii "INCR", ascii "k"]] (integer 1)

end Gopherdis.Command
