/-
The LZF compression of long strings in a snapshot. The compressor emits literal runs and back
references, finding candidates for the latter in a hash table of three-byte groups; whatever the
table holds, what it emits decompresses to its input.
-/
import Gopherdis.Lib.BackCopy
import Gopherdis.Lib.Decimal
import Mathlib.Data.List.GetD

namespace Gopherdis.Rdb

open Lib List Function Option UInt8

def hSize : Nat := 2 ^ 14

def maxOff : Nat := 2 ^ 13

def maxRef : Nat := 264

/-! ## Decompression -/

/-- The loop of `Decompress` over the input left and the output so far; `none` is
`ErrCorruptedData`. -/
def decompressLoop (expectedLen : Nat) : Nat → Bytes → Bytes → Option Bytes
  | _, [], out => if out.length = expectedLen then some out else none
  | 0, _ :: _, _ => none
  | fuel + 1, ctrl :: rest, out =>
    if ctrl.toNat < 32 then
      let litLen := ctrl.toNat + 1
      if rest.length < litLen ∨ expectedLen < out.length + litLen then none
      else decompressLoop expectedLen fuel (rest.drop litLen) (out ++ rest.take litLen)
    else
      let mLen := ctrl.toNat / 32
      let off := ctrl.toNat % 32 * 256 + 1
      -- a length of seven is continued in the next byte
      let (mLen, rest) := if mLen = 7 then (mLen + (rest.headD 0).toNat, rest.tail) else (mLen, rest)
      match rest with
      | [] => none
      | low :: rest =>
        let off := off + low.toNat
        let mLen := mLen + 2
        if out.length < off ∨ expectedLen < out.length + mLen then none
        else decompressLoop expectedLen fuel rest (copyFrom (out.length - off) mLen out)

def decompress (inp : Bytes) (expectedLen : Nat) : Option Bytes :=
  decompressLoop expectedLen inp.length inp []

/-! ## Compression -/

def hash3 (inp : Bytes) (p : Nat) : Nat :=
  let v := (inp.getD p 0).toNat * 2 ^ 16 + (inp.getD (p + 1) 0).toNat * 2 ^ 8 + (inp.getD (p + 2) 0).toNat
  v * 16777619 % 2 ^ 32 / 2 ^ (32 - 14) % hSize

/-- A finished literal run: its length less one, then the bytes. -/
def literalRun (run : Bytes) : Bytes := if run = [] then [] else ofNat (run.length - 1) :: run

/-- The back reference for a match of `matchLen` bytes at distance `off + 1`. -/
def backRef (off matchLen : Nat) : Bytes :=
  let mLen := matchLen - 2
  if mLen < 7 then [ofNat (off / 2 ^ 8 + mLen * 2 ^ 5), ofNat (off % 2 ^ 8)]
  else [ofNat (off / 2 ^ 8 + 7 * 2 ^ 5), ofNat (mLen - 7), ofNat (off % 2 ^ 8)]

/-- The compressor: the input position, the output up to the reserved control byte, and the
literals after it. `op` in the source is `out.length + 1 + run.length`. -/
structure Lzf where
  htab : Nat → Option Nat
  ip : Nat
  out : Bytes
  run : Bytes

variable {L ref : Nat} {inp out : Bytes} {s : Lzf}

/-- One literal; a run of 32 is finished. -/
def Lzf.literal (s : Lzf) (b : UInt8) : Lzf :=
  let run := s.run ++ [b]
  if run.length = 32 then { s with ip := s.ip + 1, out := s.out ++ literalRun run, run := [] }
  else { s with ip := s.ip + 1, run }

/-- The candidate at `ip`: the position the table has for the same hash, if it is close enough and
its three bytes agree. -/
def candidate (inp : Bytes) (s : Lzf) : Option Nat :=
  match s.htab (hash3 inp s.ip) with
  | none => none
  | some ref =>
    if s.ip - ref - 1 < maxOff ∧ inp.getD ref 0 = inp.getD s.ip 0 ∧ inp.getD (ref + 1) 0 = inp.getD (s.ip + 1) 0 ∧
        inp.getD (ref + 2) 0 = inp.getD (s.ip + 2) 0 then some ref
    else none

def matchLen (inp : Bytes) (ip ref : Nat) : Nat :=
  3 + matchLength (inp.drop (ip + 3)) (inp.drop (ref + 3)) (min (inp.length - ip) maxRef - 3)

/-- The main loop: `none` when the output has grown to the input's length. -/
def compressLoop (inp : Bytes) : Nat → Lzf → Option Lzf
  | 0, s => some s
  | fuel + 1, s =>
    if s.ip < inp.length - 2 then
      let htab := update s.htab (hash3 inp s.ip) (some s.ip)
      match candidate inp s with
      | some ref =>
        let len := matchLen inp s.ip ref
        let s' : Lzf :=
          { htab, ip := s.ip + len, out := s.out ++ literalRun s.run ++ backRef (s.ip - ref - 1) len, run := [] }
        if inp.length - 2 ≤ s'.ip then some s'
        else if inp.length ≤ s'.out.length + 1 + s'.run.length then none
        else compressLoop inp fuel s'
      | none =>
        let s' := { s.literal (inp.getD s.ip 0) with htab }
        if inp.length ≤ s'.out.length + 1 + s'.run.length then none else compressLoop inp fuel s'
    else some s

/-- `Compress`; `none` when the input is short or does not get shorter. -/
def compress (inp : Bytes) : Option Bytes :=
  if inp.length < 20 then none
  else
    match compressLoop inp inp.length ⟨fun _ => none, 0, [], []⟩ with
    | none => none
    | some s =>
      let s := (inp.drop s.ip).foldl Lzf.literal s
      let out := s.out ++ literalRun s.run
      if inp.length ≤ out.length then none else some out

/-! ## What the decompressor does with each token -/

lemma decompressLoop_fuel {m n : Nat} (hm : inp.length ≤ m) (hn : inp.length ≤ n) :
    decompressLoop L m inp out = decompressLoop L n inp out := by
  induction m generalizing n inp out with
  | zero =>
    rw [length_eq_zero_iff.1 (Nat.le_zero.1 hm)]
    cases n <;> rfl
  | succ m ih =>
  cases inp with
  | nil => cases n <;> rfl
  | cons ctrl rest =>
  rw [length_cons] at hm hn
  obtain ⟨n, rfl⟩ : ∃ k, n = k + 1 := ⟨n - 1, by omega⟩
  rw [decompressLoop, decompressLoop]
  by_cases hlit : ctrl.toNat < 32
  · simp only
    split_ifs
    · rfl
    · exact ih (by rw [length_drop]; omega) (by rw [length_drop]; omega)
  rw [if_neg hlit, if_neg hlit]
  simp only
  generalize hr : (if ctrl.toNat / 32 = 7 then (ctrl.toNat / 32 + (rest.headD 0).toNat, rest.tail)
    else (ctrl.toNat / 32, rest)) = r
  have hlen : r.2.length ≤ rest.length := by
    rw [← hr]; split_ifs
    · rw [length_tail]; omega
    · rfl
  obtain ⟨mLen, rest'⟩ := r
  cases rest' with
  | nil => rfl
  | cons low rest' =>
  rw [length_cons] at hlen
  simp only
  split_ifs
  · rfl
  · exact ih (by omega) (by omega)

/-- The rest of the decompression, for the input left and the output so far. -/
def decompressFrom (L : Nat) (inp out : Bytes) : Option Bytes := decompressLoop L inp.length inp out

lemma decompressFrom_literalRun {run : Bytes} (rest : Bytes) (hpos : run ≠ []) (hlen : run.length ≤ 32)
    (hL : out.length + run.length ≤ L) :
    decompressFrom L (literalRun run ++ rest) out = decompressFrom L rest (out ++ run) := by
  have hp := length_pos_iff.2 hpos
  have hc : (ofNat (run.length - 1)).toNat = run.length - 1 := toNat_ofNat_of_lt (show _ < 256 by omega)
  unfold decompressFrom literalRun
  rw [if_neg hpos, cons_append, length_cons, decompressLoop, hc, if_pos (by omega)]
  simp only [Nat.sub_add_cancel hp]
  rw [if_neg (by rw [length_append]; omega), drop_left, take_left]
  exact decompressLoop_fuel (by simp) le_rfl

lemma decompressFrom_backRef {off len : Nat} (rest : Bytes) (hmin : 3 ≤ len) (hmax : len ≤ maxRef)
    (hoff : off < maxOff) (hout : off + 1 ≤ out.length) (hL : out.length + len ≤ L) :
    decompressFrom L (backRef off len ++ rest) out =
      decompressFrom L rest (copyFrom (out.length - (off + 1)) len out) := by
  unfold maxRef at hmax
  unfold maxOff at hoff
  have hlow : (ofNat (off % 2 ^ 8)).toNat = off % 2 ^ 8 := toNat_ofNat_of_lt (show _ < 256 by omega)
  unfold decompressFrom backRef
  by_cases hshort : len - 2 < 7
  · have hc : (ofNat (off / 2 ^ 8 + (len - 2) * 2 ^ 5)).toNat = off / 2 ^ 8 + (len - 2) * 2 ^ 5 :=
      toNat_ofNat_of_lt (show _ < 256 by omega)
    have hdiv : (off / 2 ^ 8 + (len - 2) * 2 ^ 5) / 32 = len - 2 := by omega
    have hmod : (off / 2 ^ 8 + (len - 2) * 2 ^ 5) % 32 = off / 2 ^ 8 := by omega
    simp only [if_pos hshort, cons_append, nil_append, length_cons, decompressLoop, hc, hdiv, hmod,
      if_neg (show ¬ off / 2 ^ 8 + (len - 2) * 2 ^ 5 < 32 by omega), if_neg (show len - 2 ≠ 7 by omega), hlow]
    rw [if_neg (by omega), show out.length - (off / 2 ^ 8 * 256 + 1 + off % 2 ^ 8) = out.length - (off + 1) by omega,
      show len - 2 + 2 = len by omega]
    exact decompressLoop_fuel (by omega) le_rfl
  have hc : (ofNat (off / 2 ^ 8 + 7 * 2 ^ 5)).toNat = off / 2 ^ 8 + 7 * 2 ^ 5 :=
    toNat_ofNat_of_lt (show _ < 256 by omega)
  have hl : (ofNat (len - 2 - 7)).toNat = len - 2 - 7 := toNat_ofNat_of_lt (show _ < 256 by omega)
  have hdiv : (off / 2 ^ 8 + 7 * 2 ^ 5) / 32 = 7 := by omega
  have hmod : (off / 2 ^ 8 + 7 * 2 ^ 5) % 32 = off / 2 ^ 8 := by omega
  simp only [if_neg hshort, cons_append, nil_append, length_cons, decompressLoop, hc, hdiv, hmod,
    if_neg (show ¬ off / 2 ^ 8 + 7 * 2 ^ 5 < 32 by omega), if_true, headD_cons, tail_cons, hl, hlow]
  rw [if_neg (by omega), show out.length - (off / 2 ^ 8 * 256 + 1 + off % 2 ^ 8) = out.length - (off + 1) by omega,
    show 7 + (len - 2 - 7) + 2 = len by omega]
  exact decompressLoop_fuel (by omega) le_rfl

/-! ## The round trip -/

/-- The output decompresses to the input up to the literals not yet finished, and the table only
points backwards. -/
structure Lzf.Inv (inp : Bytes) (s : Lzf) : Prop where
  ip_le : s.ip ≤ inp.length
  run_lt : s.run.length < 32
  back : ∀ h ref, s.htab h = some ref → ref < s.ip
  emitted : ∃ k, inp.take s.ip = inp.take k ++ s.run ∧ k + s.run.length = s.ip ∧
    ∀ rest, decompressFrom inp.length (s.out ++ rest) [] = decompressFrom inp.length rest (inp.take k)

lemma literalRun_flush {k : Nat} {run : Bytes} (hk : k + run.length ≤ inp.length)
    (hrun : run.length ≤ 32) (htake : inp.take (k + run.length) = inp.take k ++ run)
    (hout : ∀ rest, decompressFrom inp.length (out ++ rest) [] = decompressFrom inp.length rest (inp.take k))
    (rest : Bytes) : decompressFrom inp.length (out ++ literalRun run ++ rest) [] =
      decompressFrom inp.length rest (inp.take (k + run.length)) := by
  rw [append_assoc, hout, htake]
  by_cases hnil : run = []
  · rw [literalRun, if_pos hnil, hnil, nil_append, append_nil]
  · exact decompressFrom_literalRun rest hnil hrun (by rw [length_take]; omega)

lemma Lzf.Inv.flush (h : s.Inv inp) (rest : Bytes) : decompressFrom inp.length (s.out ++ literalRun s.run ++ rest) [] =
      decompressFrom inp.length rest (inp.take s.ip) := by
  obtain ⟨k, htake, hip, hout⟩ := h.emitted
  have := h.ip_le
  rw [← hip] at htake this ⊢
  exact literalRun_flush this h.run_lt.le htake hout rest

lemma Lzf.Inv.literal (h : s.Inv inp) (hip : s.ip < inp.length) : (s.literal (inp.getD s.ip 0)).Inv inp := by
  obtain ⟨k, htake, hk, hout⟩ := h.emitted
  have htake' : inp.take (s.ip + 1) = inp.take k ++ (s.run ++ [inp.getD s.ip 0]) := by
    rw [← append_assoc, ← htake, getD_eq_getElem _ _ hip, take_concat_get' _ _ hip]
  have hlen : (s.run ++ [inp.getD s.ip 0]).length = s.run.length + 1 := length_append
  have hback : ∀ h ref, s.htab h = some ref → ref < s.ip + 1 := fun i ref hr => Nat.lt_succ_of_lt (h.back i ref hr)
  have hrun := h.run_lt
  unfold Lzf.literal
  simp only
  split_ifs with h32
  · refine ⟨hip, Nat.zero_lt_succ _, hback, s.ip + 1, (append_nil _).symm, rfl, fun rest => ?_⟩
    have hk' : k + (s.run ++ [inp.getD s.ip 0]).length = s.ip + 1 := by omega
    rw [← hk'] at htake' ⊢
    exact literalRun_flush (by omega) h32.le htake' hout rest
  · exact ⟨hip, by simp only; omega, hback, k, htake', by simp only; omega, hout⟩

lemma Lzf.Inv.remember {s' : Lzf} (h : s'.Inv inp) (hip : s.ip < s'.ip)
    (hback : ∀ h ref, s.htab h = some ref → ref < s.ip) (i : Nat) :
    { s' with htab := update s.htab i (some s.ip) }.Inv inp := by
  refine ⟨h.ip_le, h.run_lt, fun j ref hr => ?_, h.emitted⟩
  simp only [update_apply] at hr
  split_ifs at hr with hj
  · exact some.inj hr ▸ hip
  · exact (hback j ref hr).trans hip

lemma candidate_spec (h : candidate inp s = some ref) : s.htab (hash3 inp s.ip) = some ref ∧ s.ip - ref - 1 < maxOff ∧
      ∀ i, i < 3 → inp.getD (ref + i) 0 = inp.getD (s.ip + i) 0 := by
  unfold candidate at h
  cases hr : s.htab (hash3 inp s.ip) with
  | none => simp [hr] at h
  | some r =>
  simp only [hr] at h
  split_ifs at h with hc
  obtain rfl := some.inj h
  obtain ⟨hoff, h0, h1, h2⟩ := hc
  refine ⟨rfl, hoff, fun i hi => ?_⟩
  interval_cases i
  exacts [h0, h1, h2]

lemma matchLen_spec {ip : Nat} (href : ref < ip) (hip : ip + 2 < inp.length)
    (h3 : ∀ i, i < 3 → inp.getD (ref + i) 0 = inp.getD (ip + i) 0) :
    3 ≤ matchLen inp ip ref ∧ matchLen inp ip ref ≤ maxRef ∧ ip + matchLen inp ip ref ≤ inp.length ∧
      ∀ i, i < matchLen inp ip ref → inp[ref + i]? = inp[ip + i]? := by
  have hle := matchLength_le (inp.drop (ip + 3)) (inp.drop (ref + 3)) (min (inp.length - ip) maxRef - 3)
  have hmax : 3 ≤ maxRef := by decide
  unfold matchLen
  refine ⟨by omega, by omega, by omega, fun i hi => ?_⟩
  by_cases hi3 : i < 3
  · have := h3 i hi3
    rw [getD_eq_getElem _ _ (by omega), getD_eq_getElem _ _ (by omega)] at this
    rw [getElem?_eq_getElem (by omega), getElem?_eq_getElem (by omega), this]
  have hlt : i - 3 < matchLength (inp.drop (ip + 3)) (inp.drop (ref + 3)) (min (inp.length - ip) maxRef - 3) := by
    omega
  have := matchLength_get hlt
  rw [getElem?_drop, getElem?_drop] at this
  rw [show ref + i = ref + 3 + (i - 3) by omega, show ip + i = ip + 3 + (i - 3) by omega]
  exact this.symm

lemma Lzf.Inv.reference (h : s.Inv inp) (hip : s.ip < inp.length - 2) (hc : candidate inp s = some ref) :
    (Lzf.mk (update s.htab (hash3 inp s.ip) (some s.ip)) (s.ip + matchLen inp s.ip ref)
      (s.out ++ literalRun s.run ++ backRef (s.ip - ref - 1) (matchLen inp s.ip ref)) []).Inv inp := by
  obtain ⟨htab, hoff, h3⟩ := candidate_spec hc
  have href := h.back _ _ htab
  obtain ⟨hmin, hmax, hlen, hrep⟩ := matchLen_spec href (by omega) h3
  generalize matchLen inp s.ip ref = len at *
  have htake : (inp.take s.ip).length = s.ip := length_take_of_le h.ip_le
  have hpast : Lzf.Inv inp ⟨s.htab, s.ip + len, s.out ++ literalRun s.run ++ backRef (s.ip - ref - 1) len, []⟩ := by
    refine ⟨hlen, Nat.zero_lt_succ _, fun i r hr => ?_, s.ip + len, (append_nil _).symm, rfl, fun rest => ?_⟩
    · exact (h.back i r hr).trans_le (Nat.le_add_right _ _)
    · rw [append_assoc, h.flush, decompressFrom_backRef rest hmin hmax hoff (by omega) (by omega), htake,
        show s.ip - (s.ip - ref - 1 + 1) = ref by omega, copyFrom_take href hlen hrep]
  exact hpast.remember (Nat.lt_add_of_pos_right (by omega)) h.back _

lemma Lzf.literal_ip (s : Lzf) (b : UInt8) : (s.literal b).ip = s.ip + 1 := by
  unfold Lzf.literal
  simp only
  split_ifs <;> rfl

lemma compressLoop_inv {fuel : Nat} {s' : Lzf} (h : s.Inv inp)
    (hs : compressLoop inp fuel s = some s') : s'.Inv inp := by
  induction fuel generalizing s with
  | zero => exact some.inj hs ▸ h
  | succ fuel ih =>
  rw [compressLoop] at hs
  by_cases hip : s.ip < inp.length - 2
  · cases hc : candidate inp s with
    | some ref =>
      have hinv := h.reference hip hc
      simp only [hc] at hs
      split_ifs at hs
      · exact some.inj hs ▸ hinv
      · exact ih hinv hs
    | none =>
      have hinv := (h.literal (by omega)).remember (by rw [Lzf.literal_ip]; omega) h.back (hash3 inp s.ip)
      simp only [hc] at hs
      split_ifs at hs
      exact ih hinv hs
  · rw [if_neg hip] at hs
    exact some.inj hs ▸ h

lemma Lzf.Inv.tail {bs : Bytes} (h : s.Inv inp) (hbs : inp.drop s.ip = bs) :
    (bs.foldl Lzf.literal s).Inv inp ∧ (bs.foldl Lzf.literal s).ip = inp.length := by
  induction bs generalizing s with
  | nil => exact ⟨h, le_antisymm h.ip_le (drop_eq_nil_iff.1 hbs)⟩
  | cons b bs ih =>
  have hip : s.ip < inp.length := by
    by_contra hge
    rw [drop_eq_nil_of_le (by omega)] at hbs
    cases hbs
  rw [drop_eq_getElem_cons hip] at hbs
  obtain ⟨hb, hrest⟩ := List.cons.inj hbs
  have hinv := h.literal hip
  rw [getD_eq_getElem _ _ hip, hb] at hinv
  exact ih hinv (by rw [Lzf.literal_ip]; exact hrest)

lemma decompress_compress {c : Bytes} (h : compress inp = some c) : decompress c inp.length = some inp := by
  unfold compress at h
  split_ifs at h with hlen
  cases hloop : compressLoop inp inp.length ⟨fun _ => none, 0, [], []⟩ with
  | none => simp [hloop] at h
  | some s =>
  have hinit : (Lzf.mk (fun _ => none) 0 [] []).Inv inp :=
    ⟨Nat.zero_le _, Nat.zero_lt_succ _, fun _ _ hr => (some_ne_none _ hr.symm).elim, 0, rfl, rfl, fun _ => rfl⟩
  obtain ⟨hinv, hend⟩ := (compressLoop_inv hinit hloop).tail rfl
  simp only [hloop] at h
  split_ifs at h
  have hflush := hinv.flush []
  rw [append_nil, hend, take_length] at hflush
  rw [← some.inj h]
  refine hflush.trans ?_
  show (if inp.length = inp.length then some inp else none) = some inp
  rw [if_pos rfl]

lemma compress_length_lt {c : Bytes} (h : compress inp = some c) : c.length < inp.length := by
  unfold compress at h
  split_ifs at h
  split at h
  · cases h
  simp only at h
  split_ifs at h
  exact some.inj h ▸ by omega

end Gopherdis.Rdb
