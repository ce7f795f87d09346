/-
Values as the keyspace holds them. A list is its elements, a hash its field-value pairs, a set its members, a
sorted set its member-score pairs in score order; the physical encoding is left out, and so is the order in
which a hash table is walked. What the program takes from outside, floating point and the encoding thresholds
among it, is the environment.
-/
import Gopherdis.Stream.Stream

namespace Gopherdis.Object

open Lib Gopherdis.Stream List

/-- A `float64`, by its bits. -/
abbrev Score := UInt64

/-- `strconv.ParseFloat` (the value it returns, and whether without an error) and
`FormatFloat(f, 'f', -1, 64)`, the comparisons and the sum of `float64`, the encoding thresholds, the digest of
the compare-and-set conditions, and the `lazyfree-lazy-server-del` setting. -/
structure Env where
  parseFloat : Bytes → Score × Bool
  formatFloat : Score → Bytes
  scoreLt : Score → Score → Bool
  scoreEq : Score → Score → Bool
  isNaN : Score → Bool
  scoreAdd : Score → Score → Score
  hashMaxListpackEntries : Int
  hashMaxListpackValue : Int
  setMaxIntsetEntries : Int
  setMaxListpackEntries : Int
  setMaxListpackValue : Int
  zsetMaxListpackEntries : Int
  zsetMaxListpackValue : Int
  xxh3 : Bytes → UInt64
  lazyServerDel : Bool

/-- An environment that writes a score as its bits in decimal, with the default thresholds. -/
def Env.bits : Env where
  parseFloat b := (UInt64.ofNat ((parseUint b).getD 0), (parseUint b).isSome)
  formatFloat s := formatNat s.toNat
  scoreLt a b := a < b
  scoreEq a b := a = b
  isNaN _ := false
  scoreAdd a b := a + b
  hashMaxListpackEntries := 128
  hashMaxListpackValue := 64
  setMaxIntsetEntries := 512
  setMaxListpackEntries := 128
  setMaxListpackValue := 64
  zsetMaxListpackEntries := 128
  zsetMaxListpackValue := 64
  xxh3 _ := 0
  lazyServerDel := false

inductive Value
  | str (bytes : Bytes)
  | list (items : List Bytes)
  | hash (entries : List (Bytes × Bytes))
  | set (members : List Bytes)
  | zset (entries : List (Bytes × Score))
  | stream (s : Stream)
deriving DecidableEq, Repr

/-- Two values are the same to a client: hash tables and sets are not ordered. -/
def Value.Same : Value → Value → Prop
  | .hash es, .hash es' => es.Perm es'
  | .set ms, .set ms' => ms.Perm ms'
  | .zset es, .zset es' => es.Perm es'
  | v, w => v = w

@[refl] lemma Value.Same.refl : ∀ v : Value, v.Same v
  | .str _ | .list _ | .stream _ => rfl
  | .hash _ | .set _ | .zset _ => List.Perm.refl _

lemma Value.Same.trans {u v w : Value} (h : u.Same v) (h' : v.Same w) : u.Same w := by
  cases v with
  | hash es | set ms | zset es =>
    cases u <;> cases w <;> first | exact List.Perm.trans h h' | (cases h; done) | cases h'
  | str b | list items | stream s =>
    cases u <;> cases h
    exact h'

/-- The members of a collection are distinct. -/
def Value.WF : Value → Prop
  | .hash es => (es.map Prod.fst).Nodup
  | .set ms => ms.Nodup
  | .zset es => (es.map Prod.fst).Nodup
  | _ => True

/-! ## Collections, one element at a time -/

/-- Sets a field, in its place if the hash has it. -/
def hashSet (es : List (Bytes × Bytes)) (f v : Bytes) : List (Bytes × Bytes) :=
  if es.any (fun e => e.1 = f) then es.map fun e => if e.1 = f then (f, v) else e else es ++ [(f, v)]

def setAdd (ms : List Bytes) (m : Bytes) : List Bytes := if m ∈ ms then ms else ms ++ [m]

variable (E : Env)

/-- Score order, members breaking ties. -/
def zLess (a b : Bytes × Score) : Bool := E.scoreLt a.2 b.2 || (E.scoreEq a.2 b.2 && a.1 < b.1)

/-- The skiplist insertion: before the first element that is not smaller. -/
def zInsert (x : Bytes × Score) : List (Bytes × Score) → List (Bytes × Score)
  | [] => [x]
  | e :: es => if zLess E e x then e :: zInsert x es else x :: e :: es

variable (es : List (Bytes × Score))

def zScore (m : Bytes) : Option Score := (es.find? fun e => e.1 = m).map Prod.snd

/-- `ZSet.Add`: a member whose score changes is moved. The two zeros are one score, as they are to the
skiplist; the listpack keeps the one written last. -/
def zAdd (m : Bytes) (score : Score) : List (Bytes × Score) :=
  match zScore es m with
  | some cur =>
    if E.scoreEq cur score then es else zInsert E (m, score) (es.filter fun e => e.1 ≠ m)
  | none => zInsert E (m, score) es

/-! ## Collections, all at once -/

def maxLen (bs : List Bytes) : Nat := (bs.map List.length).foldl max 0

/-- `NewHashFrom`: a listpack keeps the pairs as they come. -/
def newHashFrom (entries : List (Bytes × Bytes)) : Value :=
  let longest := maxLen (entries.flatMap fun e => [e.1, e.2])
  if entries.length ≤ E.hashMaxListpackEntries ∧ longest ≤ E.hashMaxListpackValue then .hash entries
  else .hash (entries.foldl (fun es e => hashSet es e.1 e.2) [])

/-- `intset.Parse`: the canonical decimal form of an `int64`. -/
def isCanonicalInt (b : Bytes) : Bool := b.length ≤ 20 && (parseInt b).any fun n => formatInt n = b

/-- `NewSetFrom`: only the listpack takes repeated members as they come. -/
def newSetFrom (members : List Bytes) : Value :=
  if ¬ (members.all isCanonicalInt ∧ members.length ≤ E.setMaxIntsetEntries) ∧
      members.length ≤ E.setMaxListpackEntries ∧ maxLen members ≤ E.setMaxListpackValue then
    .set members
  else .set (members.foldl setAdd [])

def newZSetFrom (entries : List (Bytes × Score)) : Value :=
  if entries.length ≤ E.zsetMaxListpackEntries ∧ maxLen (entries.map Prod.fst) ≤ E.zsetMaxListpackValue then
    .zset entries
  else .zset (entries.foldl (fun es e => zAdd E es e.1 e.2) [])

/-! ## What they hold -/

variable {es : List (Bytes × Bytes)}

lemma hashSet_new {f : Bytes} (h : f ∉ es.map Prod.fst) (v : Bytes) : hashSet es f v = es ++ [(f, v)] := by
  unfold hashSet
  rw [if_neg]
  simpa using h

lemma hashSet_all {acc : List (Bytes × Bytes)} (h : ((acc ++ es).map Prod.fst).Nodup) :
    es.foldl (fun es e => hashSet es e.1 e.2) acc = acc ++ es := by
  induction es generalizing acc with
  | nil => simp
  | cons e es ih =>
    have he : e.1 ∉ acc.map Prod.fst := by
      rw [map_append, map_cons, nodup_middle, nodup_cons, mem_append, not_or] at h
      exact h.1.1
    rw [foldl_cons, hashSet_new he, ih (by rw [← append_cons]; exact h), ← append_cons]

lemma setAdd_all {acc ms : List Bytes} (h : (acc ++ ms).Nodup) : ms.foldl setAdd acc = acc ++ ms := by
  induction ms generalizing acc with
  | nil => simp
  | cons m ms ih =>
    have hm : m ∉ acc := by
      rw [nodup_middle, nodup_cons, mem_append, not_or] at h
      exact h.1.1
    rw [foldl_cons, setAdd, if_neg hm, ih (by rw [← append_cons]; exact h), ← append_cons]

variable {E}

lemma zInsert_perm (x : Bytes × Score) (es : List (Bytes × Score)) : (zInsert E x es).Perm (x :: es) := by
  induction es with
  | nil => exact .refl _
  | cons e es ih =>
    rw [zInsert]
    split_ifs
    · exact (ih.cons e).trans (.swap ..)
    · exact .refl _

lemma zScore_none {es : List (Bytes × Score)} {m : Bytes} (h : m ∉ es.map Prod.fst) : zScore es m = none := by
  unfold zScore
  rw [Option.map_eq_none_iff, find?_eq_none]
  intro e he
  rw [decide_eq_true_eq]
  rintro rfl
  exact h (mem_map_of_mem he)

lemma zAdd_all {acc es : List (Bytes × Score)} (h : ((acc ++ es).map Prod.fst).Nodup) :
    (es.foldl (fun es e => zAdd E es e.1 e.2) acc).Perm (acc ++ es) := by
  induction es generalizing acc with
  | nil => simp
  | cons e es ih =>
  have hnew : e.1 ∉ acc.map Prod.fst := by
    rw [map_append, map_cons, nodup_middle, nodup_cons, mem_append, not_or] at h
    exact h.1.1
  have hperm : (zAdd E acc e.1 e.2).Perm (e :: acc) := by
    rw [zAdd, zScore_none hnew]; exact zInsert_perm _ acc
  have hmid : (zAdd E acc e.1 e.2 ++ es).Perm (acc ++ e :: es) :=
    (hperm.append_right es).trans perm_middle.symm
  exact (ih ((hmid.map Prod.fst).nodup_iff.2 h)).trans hmid

lemma newHashFrom_eq (h : (es.map Prod.fst).Nodup) : newHashFrom E es = .hash es := by
  unfold newHashFrom
  simp only
  split_ifs
  · rfl
  · rw [hashSet_all (by simpa using h), nil_append]

lemma newSetFrom_eq {ms : List Bytes} (h : ms.Nodup) : newSetFrom E ms = .set ms := by
  unfold newSetFrom
  split_ifs
  · rfl
  · rw [setAdd_all (by simpa using h), nil_append]

lemma newZSetFrom_same {es : List (Bytes × Score)} (h : (es.map Prod.fst).Nodup) :
    (newZSetFrom E es).Same (.zset es) := by
  unfold newZSetFrom
  split_ifs
  · exact .refl _
  · exact zAdd_all (by simpa using h)

end Gopherdis.Object
