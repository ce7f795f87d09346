/-
Replies of the second protocol version, as trees, and their encoding. Every encoding ends with a line end;
what is left without it is described beside it, as that is what scripts are given.
-/
import Gopherdis.Codec.Request

namespace Gopherdis.Codec

open Lib List

inductive Reply where
  | status (s : Bytes)
  | error (s : Bytes)
  | integer (n : Int)
  | bulk (b : Bytes)
  | null
  | array (rs : List Reply)

namespace Reply

lemma ind {P : Reply → Prop} (status : ∀ s, P (.status s)) (error : ∀ s, P (.error s)) (integer : ∀ n, P (.integer n))
    (bulk : ∀ b, P (.bulk b)) (null : P .null) (array : ∀ rs, (∀ r ∈ rs, P r) → P (.array rs)) (r : Reply) : P r :=
  @Reply.rec P (fun rs => ∀ r ∈ rs, P r) status error integer bulk null array (fun _ h => absurd h not_mem_nil)
    (fun _ _ hr hrs => forall_mem_cons.2 ⟨hr, hrs⟩) r

/-! ## Encoding -/

def arrayHeader (count : Nat) : Bytes := 42 :: formatNat count ++ CRLF

mutual

def encode : Reply → Bytes
  | .status s => 43 :: s ++ CRLF
  | .error s => 45 :: s ++ CRLF
  | .integer n => 58 :: formatInt n ++ CRLF
  | .bulk b => encodeBulk b
  | .null => ascii "$-1" ++ CRLF
  | .array rs => arrayHeader rs.length ++ encodeAll rs

def encodeAll : List Reply → Bytes
  | [] => []
  | r :: rs => r.encode ++ encodeAll rs

end

mutual

/-- The encoding without the line end that closes it. -/
def body : Reply → Bytes
  | .status s => 43 :: s
  | .error s => 45 :: s
  | .integer n => 58 :: formatInt n
  | .bulk b => bulkHeader b ++ b
  | .null => ascii "$-1"
  | .array rs => if rs = [] then ascii "*0" else arrayHeader rs.length ++ bodyAll rs

def bodyAll : List Reply → Bytes
  | [] => []
  | [r] => r.body
  | r :: r' :: rs => r.encode ++ bodyAll (r' :: rs)

end

variable (rs : List Reply)

lemma encodeAll_eq : encodeAll rs = (rs.map encode).flatten := by
  induction rs with
  | nil => rfl
  | cons r rs ih => rw [encodeAll, ih, map_cons, flatten_cons]

lemma encodeAll_append (rs rs' : List Reply) : encodeAll (rs ++ rs') = encodeAll rs ++ encodeAll rs' := by
  induction rs with
  | nil => rfl
  | cons r rs ih => rw [cons_append, encodeAll, encodeAll, ih, append_assoc]

variable (r : Reply)

lemma bodyAll_concat : bodyAll (rs ++ [r]) = encodeAll rs ++ r.body := by
  induction rs with
  | nil => rfl
  | cons r' rs ih =>
    cases rs with
    | nil => simp [bodyAll, encodeAll]
    | cons r'' rs => rw [encodeAll, append_assoc, ← ih]; rfl

lemma body_concat : (Reply.array (rs ++ [r])).body = arrayHeader (rs ++ [r]).length ++ (encodeAll rs ++ r.body) := by
  rw [body, if_neg (by simp), bodyAll_concat]

lemma body_pos : 0 < r.body.length := by
  cases r with
  | status s | error s | integer n => exact Nat.succ_pos _
  | bulk b => rw [body, bulkHeader]; exact Nat.succ_pos _
  | null => decide
  | array rs =>
    rw [body]
    split_ifs
    · decide
    · exact Nat.succ_pos _

lemma encode_eq : r.encode = r.body ++ CRLF := by
  induction r using ind with
  | status s | error s | integer n | bulk b | null => rfl
  | array rs ih =>
  rcases eq_nil_or_concat rs with rfl | ⟨rs, r, rfl⟩
  · rfl
  rw [concat_eq_append] at ih ⊢
  rw [encode, body_concat, encodeAll_append, encodeAll, encodeAll, ih r (by simp)]
  simp [append_assoc, append_nil]

/-- Status lines and errors are lines, and integers are exact as `float64`. -/
inductive WF : Reply → Prop
  | status {s : Bytes} : CR ∉ s → LF ∉ s → WF (.status s)
  | error {s : Bytes} : CR ∉ s → LF ∉ s → WF (.error s)
  | integer {n : Int} : |n| ≤ 2 ^ 53 → WF (.integer n)
  | bulk (b : Bytes) : WF (.bulk b)
  | null : WF .null
  | array {rs : List Reply} : (∀ r ∈ rs, WF r) → WF (.array rs)

lemma length_le_encodeAll {r : Reply} {rs : List Reply} (h : r ∈ rs) : r.encode.length ≤ (encodeAll rs).length := by
  induction rs with
  | nil => cases h
  | cons r' rs ih =>
  rw [encodeAll, length_append]
  rcases mem_cons.1 h with rfl | h
  · omega
  · have := ih h
    omega

lemma two_le_encode : 2 ≤ r.encode.length := by
  rw [encode_eq, length_append]
  simp [CRLF]

lemma count_le_encodeAll : rs.length ≤ (encodeAll rs).length := by
  induction rs with
  | nil => exact le_rfl
  | cons r rs ih =>
    have := r.two_le_encode
    rw [encodeAll, length_append, length_cons]
    omega

end Reply

end Gopherdis.Codec
