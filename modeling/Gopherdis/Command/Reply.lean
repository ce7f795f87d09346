/-
Replies, as the bytes the handlers return, and the words of command options.
-/
import Gopherdis.Codec.Request
import Gopherdis.Store.Keyspace

namespace Gopherdis.Command

open Lib Codec List

/-! ## Replies -/

def errorCodes : List Bytes :=
  ["ERR", "WRONGTYPE", "NOSCRIPT", "NOPERM", "NOAUTH", "NOGROUP", "BUSYGROUP", "BUSYKEY", "EXECABORT", "LOADING",
    "MASTERDOWN", "MISCONF", "NOREPLICAS", "OOM", "READONLY", "CROSSSLOT", "MOVED", "ASK", "TRYAGAIN", "CLUSTERDOWN",
    "NOTBUSY", "UNBLOCKED", "BUSY", "NOPROTO", "WRONGPASS", "NOMASTERLINK", "NOTFOUND", "INPROG"].map ascii

variable (msg : Bytes)

/-- The word before the first space is a code; a message that begins with a space has none. -/
def hasErrorCode : Bool :=
  (if msg.idxOf 32 = 0 then msg else msg.take (msg.idxOf 32)) ∈ errorCodes

def error : Bytes := 45 :: ((if hasErrorCode msg then [] else ascii "ERR ") ++ msg ++ CRLF)

def wrongType : Bytes := error (ascii "WRONGTYPE Operation against a key holding the wrong kind of value")

def notAnInteger : Bytes := error (ascii "value is not an integer or out of range")

def syntaxError : Bytes := error (ascii "syntax error")

def ok : Bytes := ascii "+OK\r\n"

def queued : Bytes := ascii "+QUEUED\r\n"

def integer (n : Int) : Bytes := 58 :: (formatInt n ++ CRLF)

def nullBulkString : Bytes := ascii "$-1\r\n"

def bulkString (data : Bytes) : Bytes := encodeBulk data

/-- `Array`, of elements that are encoded already. -/
def array (elements : List Bytes) : Bytes := 42 :: (formatNat elements.length ++ CRLF ++ elements.flatten)

def nullArray : Bytes := ascii "*-1\r\n"

/-- `Null`, by the protocol the connection speaks. -/
def null (resp3 : Bool) : Bytes := if resp3 then ascii "_\r\n" else ascii "$-1\r\n"

/-- Not an error reply, as `Execute` tells. -/
def succeeded (reply : Bytes) : Bool := reply.head?.any fun b => b ≠ 45

@[simp] lemma succeeded_ok : succeeded ok = true := rfl

@[simp] lemma succeeded_integer (n : Int) : succeeded (integer n) = true := rfl

@[simp] lemma succeeded_bulkString (data : Bytes) : succeeded (bulkString data) = true := rfl

@[simp] lemma succeeded_null (resp3 : Bool) : succeeded (null resp3) = true := by cases resp3 <;> rfl

lemma bulkString_ne_null (b : Bytes) : bulkString b ≠ nullBulkString := by
  intro h
  have hd : ∃ c cs, formatNat b.length = c :: cs ∧ isDigit c = true := by
    cases hf : formatNat b.length with
    | nil => exact absurd hf (formatNat_ne_nil _)
    | cons c cs => exact ⟨c, cs, rfl, formatNat_isDigit b.length c (by rw [hf]; exact mem_cons_self)⟩
  obtain ⟨c, cs, hf, hc⟩ := hd
  have h2 := congrArg (fun l => l[1]?) h
  simp only [bulkString, encodeBulk, bulkHeader, hf, cons_append, getElem?_cons_succ,
    getElem?_cons_zero] at h2
  exact isDigit_ne hc (by decide) (Option.some.inj h2)

lemma takeWhile_formatNat (n : Nat) (bs : Bytes) : (formatNat n ++ CR :: bs).takeWhile isDigit = formatNat n := by
  rw [takeWhile_append_of_pos (formatNat_isDigit n), takeWhile_cons_of_neg (by decide), append_nil]

lemma bulkString_inj {a b : Bytes} (h : bulkString a = bulkString b) : a = b := by
  have hform : ∀ c : Bytes, bulkString c = 36 :: (formatNat c.length ++ CR :: (LF :: (c ++ CRLF))) := by
    intro c
    simp [bulkString, encodeBulk, bulkHeader, CRLF]
  rw [hform, hform] at h
  have htail := tail_eq_of_cons_eq h
  have hlen := congrArg (List.takeWhile isDigit) htail
  rw [takeWhile_formatNat, takeWhile_formatNat] at hlen
  rw [hlen] at htail
  have hbody := append_cancel_left htail
  exact append_cancel_right (tail_eq_of_cons_eq (tail_eq_of_cons_eq hbody))

/-! ## Expiry options -/

/-- The options that carry a deadline, and the commands of the `EXPIRE` family alike: relative or
absolute, in seconds or milliseconds. -/
inductive ExpireOpt
  | ex
  | px
  | exat
  | pxat
deriving DecidableEq, Repr

def expireOpt? (opt : Bytes) : Option ExpireOpt :=
  if opt = ascii "EX" then some .ex
  else if opt = ascii "PX" then some .px
  else if opt = ascii "EXAT" then some .exat
  else if opt = ascii "PXAT" then some .pxat
  else none

/-- The deadline in milliseconds, in `int64` arithmetic. -/
def ExpireOpt.absMs (x : ExpireOpt) (nowMs n : Int) : Int :=
  match x with
  | .ex => wrap64 (nowMs + n * 1000)
  | .px => wrap64 (nowMs + n)
  | .exat => wrap64 (n * 1000)
  | .pxat => n

lemma ExpireOpt.absMs_inInt64 (x : ExpireOpt) (nowMs : Int) {n : Int} (hn : InInt64 n) : InInt64 (x.absMs nowMs n) := by
  cases x with
  | pxat => exact hn
  | _ => exact wrap64_inInt64 _

def maxExpireMillis : Int := 2 ^ 46

def validExpireSeconds (secs : Int) : Bool :=
  ¬ (maxExpireMillis.tdiv 1000 < secs ∨ secs < (-maxExpireMillis).tdiv 1000)

def validExpireMillis (ms : Int) : Bool := ms ≤ maxExpireMillis ∧ -maxExpireMillis ≤ ms

end Gopherdis.Command
