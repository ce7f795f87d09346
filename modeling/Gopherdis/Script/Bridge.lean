/-
The bridge between replies and Lua values. `redis.call` cuts the line end off a reply before it converts it,
and the converter copes with that for most replies. Not for the two that are a header line and nothing else:
without its line end a null reply or an empty array at the very end is read as `nil`. An array loses its last
element that way, and an empty array becomes a null reply.
-/
import Gopherdis.Codec.ReplyTree

namespace Gopherdis.Script

open Lib Codec List Reply

variable {l b rest : Bytes} {fuel count : Nat} {rs : List Reply} {r : Reply}

/-! ## Lua values -/

/-- The Lua values replies are made of. A table has the fields `err` and `ok`, if they are strings, and the
values stored at `1`, `2` and so on. -/
inductive LuaValue where
  | nil
  | bool (b : Bool)
  | number (n : Int)
  | string (s : Bytes)
  | table (err ok : Option Bytes) (seq : List LuaValue)

/-- The integer a `float64` made of an integer has. -/
structure Rounding where
  round : Int → Int
  exact : ∀ {n : Int}, |n| ≤ 2 ^ 53 → round n = n

def LuaValue.isNil : LuaValue → Bool
  | .nil => true
  | _ => false

/-- `Len` of a table: what stands before it is not `nil`, what stands behind it is. -/
structure TableLen where
  len : List LuaValue → Nat
  le : ∀ vs, len vs ≤ vs.length
  before : ∀ vs v, vs[len vs - 1]? = some v → 0 < len vs → v.isNil = false
  behind : ∀ vs v, vs[len vs]? = some v → v.isNil = true

/-! ## From replies -/

/-- The bytes before and after the first `\r\n`. -/
def cutCRLF : Bytes → Option (Bytes × Bytes)
  | [] => none
  | b :: bs =>
    if b = CR ∧ bs.head? = some LF then some ([], bs.tail) else (cutCRLF bs).map fun x => (b :: x.1, x.2)

def bytesTrimCRLF (b : Bytes) : Bytes :=
  if b.drop (b.length - 2) = CRLF then b.take (b.length - 2) else b

/-- `strconv.Atoi` with its error ignored: the nearest number if there are only too many digits, or zero. -/
def atoi (b : Bytes) : Int :=
  (parseInt b).getD <|
    if (parseDigits (if b.head? = some 45 ∨ b.head? = some 43 then b.tail else b)).isNone then 0
    else if b.head? = some 45 then -2 ^ 63 else 2 ^ 63 - 1

def skipElems (next : Bytes → Bytes × Bytes) : Nat → Bytes → Bytes
  | 0, cur => cur
  | n + 1, cur => skipElems next n (next cur).2

/-- The first element of the data, and what is left. An element of an array is shorter than the array, so the
length of the data is enough fuel. -/
def parseNext : Nat → Bytes → Bytes × Bytes
  | 0, data => (data, [])
  | _ + 1, [] => ([], [])
  | fuel + 1, b :: bs =>
    match cutCRLF (b :: bs) with
    | none => (b :: bs, [])
    | some (line, rest) =>
    if b = 43 ∨ b = 45 ∨ b = 58 then (line ++ CRLF, rest)
    else if b = 36 then
      let length := atoi line.tail
      let stop := line.length + 2 + length + 2
      if length = -1 then (line ++ CRLF, rest)
      else if ((b :: bs).length : Int) < stop then (b :: bs, [])
      else ((b :: bs).take stop.toNat, (b :: bs).drop stop.toNat)
    else if b = 42 then
      let count := atoi line.tail
      if count ≤ 0 then (line ++ CRLF, rest)
      else
        let cur := skipElems (parseNext fuel) count.toNat rest
        ((b :: bs).take ((b :: bs).length - cur.length), cur)
    else (b :: bs, [])

def parseNextRESP (data : Bytes) : Bytes × Bytes := parseNext data.length data

def readElems (convert : Bytes → LuaValue) : Nat → Bytes → List LuaValue
  | 0, _ => []
  | n + 1, rem => convert (parseNextRESP rem).1 :: readElems convert n (parseNextRESP rem).2

/-- A payload that is not there in full panics in the source; here it is cut. -/
def toLua (R : Rounding) : Nat → Bytes → LuaValue
  | 0, _ => .nil
  | _ + 1, [] => .nil
  | fuel + 1, b :: bs =>
    if b = 43 then .table none (some (bytesTrimCRLF bs)) []
    else if b = 45 then .table (some (bytesTrimCRLF bs)) none []
    else if b = 58 then .number (R.round (atoi (bytesTrimCRLF bs)))
    else if b = 36 then
      match cutCRLF (b :: bs) with
      | none => .nil
      | some (line, rest) =>
        if atoi line.tail = -1 then .bool false else .string (rest.take (atoi line.tail).toNat)
    else if b = 42 then
      match cutCRLF (b :: bs) with
      | none => .nil
      | some (line, rest) =>
        if atoi line.tail = -1 then .bool false
        else .table none none (readElems (toLua R fuel) (atoi line.tail).toNat rest)
    else .string (b :: bs)

variable (R : Rounding)

def respToLua (resp : Bytes) : LuaValue := toLua R resp.length resp

/-- The value `redis.call` gives to the script for a reply. -/
def redisCall (reply : Bytes) : LuaValue := respToLua R (bytesTrimCRLF reply)

/-! ## Back to replies -/

variable (T : TableLen)

mutual

def luaToRESP : LuaValue → Bytes
  | .nil => ascii "$-1\r\n"
  | .bool true => ascii ":1\r\n"
  | .bool false => ascii "$-1\r\n"
  | .number n => 58 :: formatInt n ++ CRLF
  | .string s => 36 :: formatNat s.length ++ CRLF ++ s ++ CRLF
  | .table (some err) _ _ => 45 :: err ++ CRLF
  | .table none (some ok) _ => 43 :: ok ++ CRLF
  | .table none none seq =>
    42 :: formatNat (T.len seq) ++ CRLF ++ ((luaToRESPAll seq).take (T.len seq)).flatten

def luaToRESPAll : List LuaValue → List Bytes
  | [] => []
  | v :: vs => luaToRESP v :: luaToRESPAll vs

end

/-! ## Lines and numbers -/

lemma cutCRLF_append (h : CR ∉ l) (rest : Bytes) : cutCRLF (l ++ CRLF ++ rest) = some (l, rest) := by
  induction l with
  | nil => rfl
  | cons b l ih =>
    rw [mem_cons, not_or] at h
    rw [cons_append, cons_append, cutCRLF, if_neg fun hb => h.1 hb.1.symm, ih h.2]
    rfl

lemma cutCRLF_none (h : CR ∉ l) : cutCRLF l = none := by
  induction l with
  | nil => rfl
  | cons b l ih =>
    rw [mem_cons, not_or] at h
    rw [cutCRLF, if_neg fun hb => h.1 hb.1.symm, ih h.2]
    rfl

lemma bytesTrimCRLF_append (b : Bytes) : bytesTrimCRLF (b ++ CRLF) = b := by
  have hlen : (b ++ CRLF).length - 2 = b.length := by simp [CRLF]
  rw [bytesTrimCRLF, hlen, drop_left, if_pos rfl, take_left]

lemma bytesTrimCRLF_of_not_mem (h : LF ∉ b) : bytesTrimCRLF b = b := by
  rw [bytesTrimCRLF, if_neg]
  intro hdrop
  have hmem : LF ∈ b.drop (b.length - 2) := by
    rw [hdrop]
    decide
  exact h (mem_of_mem_drop hmem)

lemma formatNat_no_CR (n : Nat) : CR ∉ formatNat n := fun h =>
  isDigit_ne (formatNat_isDigit n _ h) (by decide) rfl

lemma formatInt_no {c : UInt8} (hc : isDigit c = false) (hneg : c ≠ 45) (n : Int) : c ∉ formatInt n := by
  have hnat : c ∉ formatNat n.natAbs := fun h => isDigit_ne (formatNat_isDigit _ _ h) hc rfl
  unfold formatInt
  split_ifs
  · rw [mem_cons, not_or]
    exact ⟨hneg, hnat⟩
  · exact hnat

lemma atoi_formatNat {n : Nat} (h : n < 2 ^ 63) : atoi (formatNat n) = n := by
  rw [atoi, parseInt_formatNat, if_pos h]
  rfl

/-! ## Finding the elements -/

lemma arrayHeader_line (count : Nat) (rest : Bytes) :
    cutCRLF (arrayHeader count ++ rest) = some (42 :: formatNat count, rest) := by
  have hCR : CR ∉ 42 :: formatNat count := by
    rw [mem_cons, not_or]
    exact ⟨by decide, formatNat_no_CR count⟩
  exact cutCRLF_append hCR rest

lemma bulkHeader_line (b rest : Bytes) : cutCRLF (bulkHeader b ++ rest) = some (36 :: formatNat b.length, rest) := by
  have hCR : CR ∉ 36 :: formatNat b.length := by
    rw [mem_cons, not_or]
    exact ⟨by decide, formatNat_no_CR b.length⟩
  exact cutCRLF_append hCR rest

lemma parseNext_line {b : UInt8} (hb : b = 43 ∨ b = 45 ∨ b = 58) (h : CR ∉ l)
    (rest : Bytes) : parseNext (fuel + 1) (b :: l ++ CRLF ++ rest) = (b :: l ++ CRLF, rest) := by
  have hCR : CR ∉ b :: l := by
    rw [mem_cons, not_or]
    refine ⟨?_, h⟩
    rcases hb with rfl | rfl | rfl <;> decide
  have hcut := cutCRLF_append hCR rest
  simp only [cons_append] at hcut ⊢
  rw [parseNext, hcut]
  simp [if_pos hb, cons_append]

lemma parseNext_bulk (fuel : Nat) (h : b.length < 2 ^ 63) (rest : Bytes) :
    parseNext (fuel + 1) (encodeBulk b ++ rest) = (encodeBulk b, rest) := by
  have hcut := bulkHeader_line b (b ++ CRLF ++ rest)
  have hdata : encodeBulk b ++ rest = 36 :: (formatNat b.length ++ CRLF ++ b ++ CRLF ++ rest) := by
    simp [encodeBulk, bulkHeader]
  have hdata' : bulkHeader b ++ (b ++ CRLF ++ rest) = encodeBulk b ++ rest := by simp [encodeBulk]
  have hlen : (encodeBulk b).length = (36 :: formatNat b.length).length + 2 + b.length + 2 := by
    rw [encodeBulk_length, bulkHeader_length, length_cons]
    omega
  rw [hdata'] at hcut
  rw [hdata] at hcut ⊢
  rw [parseNext, hcut]
  simp only [tail_cons, atoi_formatNat h]
  rw [← hdata, if_neg (by decide), if_pos trivial, if_neg (by omega), if_neg]
  · have hstop : ((36 :: formatNat b.length).length + 2 + (b.length : Int) + 2 : Int).toNat = (encodeBulk b).length := by
      omega
    rw [hstop, take_left, drop_left]
  · rw [length_append, hlen]
    omega

lemma exists_fuel (r : Reply) (h : (r.encode ++ rest).length ≤ fuel) : ∃ n, fuel = n + 1 := by
  have := r.two_le_encode
  rw [length_append] at h
  exact ⟨fuel - 1, by omega⟩

lemma exists_fuel_encode (r : Reply) (h : r.encode.length ≤ fuel) : ∃ n, fuel = n + 1 :=
  exists_fuel r (append_nil r.encode ▸ h)

lemma exists_fuel_body (r : Reply) (h : r.body.length ≤ fuel) : ∃ n, fuel = n + 1 := by
  have := r.body_pos
  exact ⟨fuel - 1, by omega⟩

lemma length_of_header {elems : Bytes} (h : (arrayHeader count ++ elems).length ≤ fuel + 1) : elems.length ≤ fuel := by
  rw [arrayHeader] at h
  simp only [cons_append, length_cons, length_append] at h
  omega

lemma length_of_bulk (h : (bulk b).encode.length < 2 ^ 63) : b.length < 2 ^ 63 := by
  have := encodeBulk_length b
  rw [encode] at h
  omega

lemma lengths_of_array (h : (array rs).encode.length < 2 ^ 63) :
    rs.length < 2 ^ 63 ∧ ∀ r ∈ rs, r.encode.length < 2 ^ 63 := by
  rw [encode, length_append] at h
  constructor
  · have := count_le_encodeAll rs
    omega
  · intro r hr
    have := length_le_encodeAll hr
    omega

lemma skipElems_encodeAll
    (h : ∀ r ∈ rs, ∀ rest, (r.encode ++ rest).length ≤ fuel → parseNext fuel (r.encode ++ rest) = (r.encode, rest))
    (hfuel : (encodeAll rs ++ rest).length ≤ fuel) (n : Nat) :
    skipElems (parseNext fuel) (rs.length + n) (encodeAll rs ++ rest) = skipElems (parseNext fuel) n rest := by
  induction rs with
  | nil => rw [length_nil, Nat.zero_add]; rfl
  | cons r rs ih =>
  rw [forall_mem_cons] at h
  rw [encodeAll, append_assoc] at hfuel ⊢
  rw [length_cons, Nat.add_right_comm, skipElems, h.1 _ hfuel]
  refine ih h.2 ?_
  rw [length_append] at hfuel
  omega

lemma parseNext_array {elems : Bytes} (hcount : count < 2 ^ 63) (hpos : 0 < count)
    (hskip : skipElems (parseNext fuel) count (elems ++ rest) = rest) :
    parseNext (fuel + 1) (arrayHeader count ++ elems ++ rest) = (arrayHeader count ++ elems, rest) := by
  have hdata : arrayHeader count ++ (elems ++ rest) = 42 :: (formatNat count ++ CRLF ++ (elems ++ rest)) := by
    simp [arrayHeader]
  have hcut := arrayHeader_line count (elems ++ rest)
  rw [hdata] at hcut
  rw [append_assoc, hdata, parseNext, hcut]
  simp only [tail_cons, atoi_formatNat hcount, Int.toNat_natCast, hskip]
  rw [if_neg (by decide), if_neg (by decide), if_pos trivial, if_neg (by omega), ← hdata, ← append_assoc]
  congr 1
  rw [length_append, Nat.add_sub_cancel, take_left]

lemma parseNext_bare {b : UInt8} (h : CR ∉ l) (hb : b ≠ CR) (fuel : Nat) : parseNext fuel (b :: l) = (b :: l, []) := by
  cases fuel with
  | zero => rfl
  | succ fuel =>
    have hCR : CR ∉ b :: l := by
      rw [mem_cons, not_or]
      exact ⟨hb.symm, h⟩
    rw [parseNext, cutCRLF_none hCR]

lemma parseNext_bulkBody (fuel : Nat) (h : b.length < 2 ^ 63) :
    parseNext fuel (bulkHeader b ++ b) = (bulkHeader b ++ b, []) := by
  cases fuel with
  | zero => rfl
  | succ fuel =>
  have hcut := bulkHeader_line b b
  have hdata : bulkHeader b ++ b = 36 :: (formatNat b.length ++ CRLF ++ b) := by simp [bulkHeader]
  rw [hdata] at hcut ⊢
  rw [parseNext, hcut]
  simp only [tail_cons, atoi_formatNat h]
  rw [if_neg (by decide), if_pos trivial, if_neg (by omega), if_pos]
  simp only [length_cons, length_append, CRLF, length_nil]
  omega

lemma parseNext_encode (hwf : r.WF) (hlen : r.encode.length < 2 ^ 63)
    (hfuel : (r.encode ++ rest).length ≤ fuel) : parseNext fuel (r.encode ++ rest) = (r.encode, rest) := by
  induction r using ind generalizing fuel rest with
  | status s =>
    obtain ⟨fuel, rfl⟩ := exists_fuel (.status s) hfuel
    cases hwf with
    | status hCR hLF => exact parseNext_line (.inl rfl) hCR rest
  | error s =>
    obtain ⟨fuel, rfl⟩ := exists_fuel (.error s) hfuel
    cases hwf with
    | error hCR hLF => exact parseNext_line (.inr (.inl rfl)) hCR rest
  | integer n =>
    obtain ⟨fuel, rfl⟩ := exists_fuel (.integer n) hfuel
    exact parseNext_line (.inr (.inr rfl)) (formatInt_no (by decide) (by decide) n) rest
  | bulk b =>
    obtain ⟨fuel, rfl⟩ := exists_fuel (.bulk b) hfuel
    exact parseNext_bulk fuel (length_of_bulk hlen) rest
  | null =>
    obtain ⟨fuel, rfl⟩ := exists_fuel .null hfuel
    rfl
  | array rs ih =>
    obtain ⟨fuel, rfl⟩ := exists_fuel (.array rs) hfuel
    obtain ⟨hcount, helems⟩ := lengths_of_array hlen
    cases hwf with
    | array hwf =>
      rcases eq_nil_or_concat rs with rfl | ⟨_, _, hrs⟩
      · rfl
      have hpos : 0 < rs.length := by rw [hrs]; simp
      refine parseNext_array hcount hpos (skipElems_encodeAll (fun r hr rest hfuel => ?_) ?_ 0)
      · exact ih r hr (hwf r hr) (helems r hr) hfuel
      · rw [encode, append_assoc] at hfuel
        exact length_of_header hfuel

lemma parseNext_body (hwf : r.WF) (hlen : r.encode.length < 2 ^ 63)
    (hfuel : r.body.length ≤ fuel) : parseNext fuel r.body = (r.body, []) := by
  induction r using ind generalizing fuel with
  | status s =>
    cases hwf with
    | status hCR hLF => exact parseNext_bare hCR (by decide) fuel
  | error s =>
    cases hwf with
    | error hCR hLF => exact parseNext_bare hCR (by decide) fuel
  | integer n => exact parseNext_bare (formatInt_no (by decide) (by decide) n) (by decide) fuel
  | bulk b => exact parseNext_bulkBody fuel (length_of_bulk hlen)
  | null => exact parseNext_bare (by decide) (by decide) fuel
  | array rs ih =>
  obtain ⟨hcount, helems⟩ := lengths_of_array hlen
  cases hwf with
  | array hwf =>
    rcases eq_nil_or_concat rs with rfl | ⟨rs, r, rfl⟩
    · exact parseNext_bare (by decide) (by decide) fuel
    rw [concat_eq_append] at hcount helems hwf ih hfuel ⊢
    have hr : r ∈ rs ++ [r] := by simp
    obtain ⟨fuel, rfl⟩ := exists_fuel_body _ hfuel
    rw [body_concat] at hfuel ⊢
    have hroom := length_of_header hfuel
    rw [← append_nil (arrayHeader _ ++ _)]
    refine (parseNext_array hcount (by simp) ?_).trans (by rw [append_nil])
    rw [append_nil, length_append, length_singleton, skipElems_encodeAll _ hroom]
    · rw [skipElems, ih r hr (hwf r hr) (helems r hr) (by rw [length_append] at hroom; omega)]
      rfl
    · intro r' hr' rest hfuel
      have hmem : r' ∈ rs ++ [r] := mem_append_left _ hr'
      exact parseNext_encode (hwf r' hmem) (helems r' hmem) hfuel

/-! ## The value of a reply -/

mutual

/-- The value made of a whole reply. -/
def value : Reply → LuaValue
  | .status s => .table none (some s) []
  | .error s => .table (some s) none []
  | .integer n => .number n
  | .bulk b => .string b
  | .null => .bool false
  | .array rs => .table none none (valueAll rs)

def valueAll : List Reply → List LuaValue
  | [] => []
  | r :: rs => value r :: valueAll rs

end

mutual

/-- The value made of a reply without its line end. -/
def cutValue : Reply → LuaValue
  | .status s => .table none (some s) []
  | .error s => .table (some s) none []
  | .integer n => .number n
  | .bulk b => .string b
  | .null => .nil
  | .array [] => .nil
  | .array (r :: rs) => .table none none (cutAll (r :: rs))

def cutAll : List Reply → List LuaValue
  | [] => []
  | [r] => [cutValue r]
  | r :: r' :: rs => value r :: cutAll (r' :: rs)

end

lemma valueAll_eq (rs : List Reply) : valueAll rs = rs.map value := by
  induction rs with
  | nil => rfl
  | cons r rs ih => rw [valueAll, ih, map_cons]

lemma cutAll_concat (rs : List Reply) (r : Reply) : cutAll (rs ++ [r]) = rs.map value ++ [cutValue r] := by
  induction rs with
  | nil => rfl
  | cons r' rs ih =>
    cases rs with
    | nil => rfl
    | cons r'' rs => exact congrArg (value r' :: ·) ih

lemma cutValue_concat (rs : List Reply) (r : Reply) :
    cutValue (.array (rs ++ [r])) = .table none none (rs.map value ++ [cutValue r]) := by
  rw [← cutAll_concat]
  cases rs <;> rfl

lemma readElems_encodeAll (convert : Bytes → LuaValue) (hwf : ∀ r ∈ rs, r.WF)
    (hlen : ∀ r ∈ rs, r.encode.length < 2 ^ 63) (n : Nat) (rest : Bytes) :
    readElems convert (rs.length + n) (encodeAll rs ++ rest) =
      rs.map (fun r => convert r.encode) ++ readElems convert n rest := by
  induction rs with
  | nil => rw [length_nil, Nat.zero_add]; rfl
  | cons r rs ih =>
    rw [forall_mem_cons] at hwf hlen
    rw [encodeAll, append_assoc, length_cons, Nat.add_right_comm, readElems, parseNextRESP,
      parseNext_encode hwf.1 hlen.1 le_rfl, ih hwf.2 hlen.2]
    rfl

lemma toLua_array (fuel : Nat) (hcount : count < 2 ^ 63) (elems : Bytes) :
    toLua R (fuel + 1) (arrayHeader count ++ elems) = .table none none (readElems (toLua R fuel) count elems) := by
  have hdata : arrayHeader count ++ elems = 42 :: (formatNat count ++ CRLF ++ elems) := by
    simp [arrayHeader]
  have hcut := arrayHeader_line count elems
  rw [hdata] at hcut ⊢
  rw [toLua, if_neg (by decide), if_neg (by decide), if_neg (by decide), if_neg (by decide), if_pos rfl, hcut]
  simp only [tail_cons, atoi_formatNat hcount, Int.toNat_natCast]
  rw [if_neg (by omega)]

lemma toLua_bulk (fuel : Nat) (h : b.length < 2 ^ 63) (rest : Bytes) :
    toLua R (fuel + 1) (bulkHeader b ++ (b ++ rest)) = .string b := by
  have hdata : bulkHeader b ++ (b ++ rest) = 36 :: (formatNat b.length ++ CRLF ++ (b ++ rest)) := by simp [bulkHeader]
  have hcut := bulkHeader_line b (b ++ rest)
  rw [hdata] at hcut ⊢
  rw [toLua, if_neg (by decide), if_neg (by decide), if_neg (by decide), if_pos rfl, hcut]
  simp only [tail_cons, atoi_formatNat h, Int.toNat_natCast, take_left]
  rw [if_neg (by omega)]

lemma toLua_integer {n : Int} (h : |n| ≤ 2 ^ 53) : R.round (atoi (formatInt n)) = n := by
  have hint : InInt64 n := by
    unfold InInt64
    rw [abs_le] at h
    omega
  rw [atoi, parseInt_formatInt hint, Option.getD_some, R.exact h]

lemma toLua_encode (hwf : r.WF) (hlen : r.encode.length < 2 ^ 63)
    (hfuel : r.encode.length ≤ fuel) : toLua R fuel r.encode = value r := by
  induction r using ind generalizing fuel with
  | status s =>
    obtain ⟨fuel, rfl⟩ := exists_fuel_encode (.status s) hfuel
    exact congrArg (fun l => LuaValue.table none (some l) []) (bytesTrimCRLF_append s)
  | error s =>
    obtain ⟨fuel, rfl⟩ := exists_fuel_encode (.error s) hfuel
    exact congrArg (fun l => LuaValue.table (some l) none []) (bytesTrimCRLF_append s)
  | integer n =>
    obtain ⟨fuel, rfl⟩ := exists_fuel_encode (.integer n) hfuel
    cases hwf with
    | integer hn =>
      have htrim := congrArg (fun l => R.round (atoi l)) (bytesTrimCRLF_append (formatInt n))
      exact congrArg LuaValue.number (htrim.trans (toLua_integer R hn))
  | bulk b =>
    obtain ⟨fuel, rfl⟩ := exists_fuel_encode (.bulk b) hfuel
    rw [encode, encodeBulk, append_assoc]
    exact toLua_bulk R fuel (length_of_bulk hlen) CRLF
  | null =>
    obtain ⟨fuel, rfl⟩ := exists_fuel_encode .null hfuel
    rfl
  | array rs ih =>
    obtain ⟨fuel, rfl⟩ := exists_fuel_encode (.array rs) hfuel
    obtain ⟨hcount, helems⟩ := lengths_of_array hlen
    cases hwf with
    | array hwf =>
      rw [encode] at hfuel ⊢
      rw [toLua_array R fuel hcount, value, valueAll_eq]
      refine congrArg (LuaValue.table none none) ?_
      have hread := readElems_encodeAll (toLua R fuel) hwf helems 0 []
      rw [append_nil] at hread
      refine hread.trans ((append_nil _).trans (map_congr_left fun r hr => ?_))
      refine ih r hr (hwf r hr) (helems r hr) ?_
      exact (length_le_encodeAll hr).trans (length_of_header hfuel)

lemma toLua_body (hwf : r.WF) (hlen : r.encode.length < 2 ^ 63)
    (hfuel : r.body.length ≤ fuel) : toLua R fuel r.body = cutValue r := by
  induction r using ind generalizing fuel with
  | status s =>
    obtain ⟨fuel, rfl⟩ := exists_fuel_body (.status s) hfuel
    cases hwf with
    | status hCR hLF => exact congrArg (fun l => LuaValue.table none (some l) []) (bytesTrimCRLF_of_not_mem hLF)
  | error s =>
    obtain ⟨fuel, rfl⟩ := exists_fuel_body (.error s) hfuel
    cases hwf with
    | error hCR hLF => exact congrArg (fun l => LuaValue.table (some l) none []) (bytesTrimCRLF_of_not_mem hLF)
  | integer n =>
    obtain ⟨fuel, rfl⟩ := exists_fuel_body (.integer n) hfuel
    cases hwf with
    | integer hn =>
      have hLF : LF ∉ formatInt n := formatInt_no (by decide) (by decide) n
      have htrim := congrArg (fun l => R.round (atoi l)) (bytesTrimCRLF_of_not_mem hLF)
      exact congrArg LuaValue.number (htrim.trans (toLua_integer R hn))
  | bulk b =>
    obtain ⟨fuel, rfl⟩ := exists_fuel_body (.bulk b) hfuel
    have hbulk := toLua_bulk R fuel (length_of_bulk hlen) []
    rwa [append_nil] at hbulk
  | null =>
    obtain ⟨fuel, rfl⟩ := exists_fuel_body .null hfuel
    rfl
  | array rs ih =>
    obtain ⟨fuel, rfl⟩ := exists_fuel_body (.array rs) hfuel
    obtain ⟨hcount, helems⟩ := lengths_of_array hlen
    cases hwf with
    | array hwf =>
      rcases eq_nil_or_concat rs with rfl | ⟨rs, r, rfl⟩
      · rfl
      rw [concat_eq_append] at hcount helems hwf ih hfuel ⊢
      have hr : r ∈ rs ++ [r] := by simp
      rw [body_concat] at hfuel ⊢
      have hroom := length_of_header hfuel
      rw [toLua_array R fuel hcount, cutValue_concat, length_append, length_singleton,
        readElems_encodeAll]
      · rw [readElems, parseNextRESP, parseNext_body (hwf r hr) (helems r hr) le_rfl,
          ih r hr (hwf r hr) (helems r hr) (by rw [length_append] at hroom; omega)]
        refine congrArg (fun vs => LuaValue.table none none (vs ++ [cutValue r])) ?_
        refine map_congr_left fun r' hr' => toLua_encode R ?_ ?_ ?_
        · exact hwf r' (mem_append_left _ hr')
        · exact helems r' (mem_append_left _ hr')
        · have := length_le_encodeAll hr'
          rw [length_append] at hroom
          omega
      · exact fun r' hr' => hwf r' (mem_append_left _ hr')
      · exact fun r' hr' => helems r' (mem_append_left _ hr')

lemma redisCall_encode (hwf : r.WF) (hlen : r.encode.length < 2 ^ 63) : redisCall R r.encode = cutValue r := by
  have htrim : bytesTrimCRLF r.encode = r.body := by rw [encode_eq, bytesTrimCRLF_append]
  rw [redisCall, htrim, respToLua, toLua_body R hwf hlen le_rfl]

/-! ## Back to the reply -/

lemma luaToRESPAll_eq (vs : List LuaValue) : luaToRESPAll T vs = vs.map (luaToRESP T) := by
  induction vs with
  | nil => rfl
  | cons v vs ih => rw [luaToRESPAll, ih, map_cons]

lemma value_isNil (r : Reply) : (value r).isNil = false := by cases r <;> rfl

lemma len_append {vs : List LuaValue} (h : ∀ v ∈ vs, v.isNil = false) (v : LuaValue) :
    T.len (vs ++ [v]) = if v.isNil then vs.length else vs.length + 1 := by
  have hle := T.le (vs ++ [v])
  have hbefore := T.before (vs ++ [v])
  have hbehind := T.behind (vs ++ [v])
  generalize T.len (vs ++ [v]) = n at hle hbefore hbehind ⊢
  rw [length_append, length_singleton] at hle
  rcases lt_trichotomy n vs.length with hn | rfl | hn
  · rw [getElem?_append_left hn, getElem?_eq_getElem hn] at hbehind
    cases (h _ (getElem_mem hn)).symm.trans (hbehind _ rfl)
  · rw [hbehind v (by simp), if_pos rfl]
  · obtain rfl : n = vs.length + 1 := by omega
    rw [hbefore v (by simp) (by omega), if_neg (by decide)]

lemma luaToRESP_concat {vs : List LuaValue} (h : ∀ v ∈ vs, v.isNil = false) (v : LuaValue) :
    luaToRESP T (.table none none (vs ++ [v])) = if v.isNil then arrayHeader vs.length ++ (vs.map (luaToRESP T)).flatten
      else arrayHeader (vs.length + 1) ++ ((vs.map (luaToRESP T)).flatten ++ luaToRESP T v) := by
  rw [luaToRESP, len_append T h, luaToRESPAll_eq, map_append]
  split_ifs
  · rw [take_left' (by simp)]
    rfl
  · rw [take_of_length_le (by simp), flatten_append]
    simp [arrayHeader]

lemma luaToRESP_value (r : Reply) : luaToRESP T (value r) = r.encode := by
  induction r using ind with
  | status s | error s | integer n | null | bulk => rfl
  | array rs ih =>
  rcases eq_nil_or_concat rs with rfl | ⟨rs, r, rfl⟩
  · rw [value, valueAll, luaToRESP, Nat.le_zero.1 (T.le [])]
    rfl
  rw [concat_eq_append] at ih ⊢
  rw [value, valueAll_eq, map_append, map_singleton, luaToRESP_concat, value_isNil]
  · have hmap : (rs.map value).map (luaToRESP T) = rs.map encode := by
      rw [map_map]
      exact map_congr_left fun r' hr' => ih r' (mem_append_left _ hr')
    rw [if_neg (by decide), hmap, ih r (by simp), encode, encodeAll_append, encodeAll_eq rs]
    simp [encodeAll]
  · intro v hv
    obtain ⟨r', -, rfl⟩ := mem_map.1 hv
    exact value_isNil r'

mutual

/-- Without its line end the reply is read as less than it is. It ends with an empty array, or with a null reply
that is an element. -/
def endsBare : Reply → Bool
  | .array rs => endsBareAll rs
  | _ => false

def endsBareAll : List Reply → Bool
  | [] => true
  | [.null] => true
  | [r] => endsBare r
  | _ :: r' :: rs => endsBareAll (r' :: rs)

end

lemma endsBareAll_singleton (r : Reply) : endsBareAll [r] = ((cutValue r).isNil || endsBare r) := by
  cases r with
  | array rs => cases rs <;> rfl
  | _ => rfl

lemma endsBare_concat (rs : List Reply) (r : Reply) :
    endsBare (.array (rs ++ [r])) = ((cutValue r).isNil || endsBare r) := by
  rw [endsBare, ← endsBareAll_singleton]
  induction rs with
  | nil => rfl
  | cons r' rs ih =>
    cases rs with
    | nil => cases r' <;> rfl
    | cons r'' rs => exact Eq.trans (by cases r' <;> rfl) ih

lemma arrayHeader_inj {n m : Nat} {x y : Bytes} (h : arrayHeader n ++ x = arrayHeader m ++ y) : n = m := by
  have hcut := arrayHeader_line n x
  rw [h, arrayHeader_line] at hcut
  have hline := congrArg Prod.fst (Option.some.inj hcut)
  exact formatNat_injective (List.cons.inj hline).2.symm

lemma luaToRESP_cutValue_iff (r : Reply) : luaToRESP T (cutValue r) = r.encode ↔ endsBare r = false := by
  induction r using ind with
  | status s | error s | integer n | bulk b | null => exact iff_of_true rfl rfl
  | array rs ih =>
  rcases eq_nil_or_concat rs with rfl | ⟨rs, r, rfl⟩
  · exact iff_of_false (show ¬ ascii "$-1\r\n" = (array []).encode by decide) (by decide)
  rw [concat_eq_append] at ih ⊢
  have hsome : ∀ v ∈ rs.map value, v.isNil = false := by
    intro v hv
    obtain ⟨r', -, rfl⟩ := mem_map.1 hv
    exact value_isNil r'
  have hmap : (rs.map value).map (luaToRESP T) = rs.map encode := by
    rw [map_map]
    exact map_congr_left fun r' _ => luaToRESP_value T r'
  have hencode : (array (rs ++ [r])).encode =
      arrayHeader (rs.length + 1) ++ ((rs.map encode).flatten ++ r.encode) := by
    rw [encode, encodeAll_append, encodeAll_eq rs, length_append]
    simp [encodeAll]
  rw [cutValue_concat, endsBare_concat, luaToRESP_concat T hsome, hmap, hencode, length_map]
  cases hnil : (cutValue r).isNil with
  | true =>
    -- The last element is `nil`, so the array is announced one shorter.
    refine iff_of_false (fun h => ?_) (by simp)
    have := arrayHeader_inj h
    omega
  | false =>
    rw [if_neg (by decide), append_cancel_left_eq, append_cancel_left_eq, Bool.false_or]
    exact ih r (by simp)

/-- A script that returns what `redis.call` gave it returns the reply exactly if the reply does not end with an
empty array, nor with a null reply in an array. The reply is a slice, so its length is an `int`. -/
theorem returned_reply_unchanged_iff (T : TableLen) (R : Rounding) (r : Reply) (hwf : r.WF)
    (hlen : r.encode.length < 2 ^ 63) :
    luaToRESP T (redisCall R r.encode) = r.encode ↔ endsBare r = false := by
  rw [redisCall_encode R hwf hlen, luaToRESP_cutValue_iff]

/-- The elements before the first `nil`. -/
def untilNil : TableLen where
  len vs := vs.findIdx LuaValue.isNil
  le vs := findIdx_le_length
  before vs v hv hpos := by
    obtain ⟨hlt, rfl⟩ := List.getElem?_eq_some_iff.1 hv
    exact not_of_lt_findIdx (by omega)
  behind vs v hv := by
    obtain ⟨hlt, rfl⟩ := List.getElem?_eq_some_iff.1 hv
    exact findIdx_getElem

/-- A conversion that rounds nothing. -/
def exactNumbers : Rounding := ⟨id, fun _ => rfl⟩

theorem null_before_last_is_kept :
    luaToRESP untilNil (redisCall exactNumbers (array [.null, .bulk [], .integer 7]).encode) =
      (array [.null, .bulk [], .integer 7]).encode :=
  (returned_reply_unchanged_iff untilNil exactNumbers (.array [.null, .bulk [], .integer 7])
    (.array (by
      simp only [forall_mem_cons, not_mem_nil, false_implies, implies_true, and_true]
      exact ⟨.null, .bulk [], .integer (by norm_num)⟩)) (lt_trans (b := 100) (by decide) (by norm_num))).2 rfl

/-- An empty array comes back as a null reply, and an array without the null reply at its end. -/
theorem bare_end_is_lost : luaToRESP untilNil (redisCall exactNumbers (ascii "*0\r\n")) = ascii "$-1\r\n" ∧
      luaToRESP untilNil (redisCall exactNumbers (ascii "*2\r\n:7\r\n$-1\r\n")) = ascii "*1\r\n:7\r\n" := by
  decide +kernel

end Gopherdis.Script
