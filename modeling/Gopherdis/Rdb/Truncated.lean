/-
Loading what is left of a snapshot that was cut short. The decoder takes the end of the input before a
record for the end of the file, goes on after an error in the fields before the entries, and takes a
checksum that is not there for none. So a cut is reported only in the header or inside a record.
-/
import Gopherdis.Rdb.RoundTrip

namespace Gopherdis.Rdb

open Lib Object Store List

variable {E : Env} {now : Clock}
variable {P : Except RdbError Unit → Prop} {b : UInt8} {bs rest : Bytes} {n : Nat}

/-! ## How the loop ends -/

/-- However the loop comes to `bs`, it ends with a result in `P`. -/
def Ends (E : Env) (now : Clock) (P : Except RdbError Unit → Prop) (bs : Bytes) : Prop :=
  ∀ fuel x db d, bs.length < fuel → P (loadLoop E now fuel x db ⟨bs, d⟩).1

variable (r : Except RdbError Unit)

def IsError : Prop := ∃ e, r = .error e

def IsOk : Prop := r = .ok ()

lemma not_isError_of_isOk {r : Except RdbError Unit} (h : IsOk r) : ¬ IsError r := by
  rintro ⟨e, he⟩
  cases h.symm.trans he

lemma ends_nil : Ends E now IsOk [] := by
  intro fuel x db d hfuel
  obtain _ | fuel := fuel
  · simp at hfuel
  · rfl

lemma loadLoop_cons (fuel : Nat) (x : Int) (db : Keyspace) (b : UInt8) (bs : Bytes) (d : UInt64) :
    loadLoop E now (fuel + 1) x db ⟨b :: bs, d⟩ = match loadRecord E now b x db ⟨bs, crc64Step d b⟩ with
      | (.error e, _) => (.error e, db)
      | (.ok none, _) => (.ok (), db)
      | (.ok (some (x, db)), s) => loadLoop E now fuel x db s := by
  have hb := (takes_readByte b).reads bs d
  rw [singleton_append] at hb
  rfl

lemma ends_turn
    (h : ∀ x db, ∃ x' db', DecReads (loadRecord E now b x db) bs (some (x', db'))) (hrest : Ends E now P rest) :
    Ends E now P (b :: bs ++ rest) := by
  intro fuel x db d hfuel
  obtain _ | fuel := fuel
  · simp at hfuel
  obtain ⟨x', db', hread⟩ := h x db
  rw [loadLoop_turn hread]
  refine hrest fuel x' db' _ ?_
  rw [length_append, length_cons] at hfuel
  omega

lemma ends_cut {pre suf : Bytes}
    (h : ∀ x db, ∃ x' db', DecTakes (loadRecord E now b x db) bs (some (x', db'))) (hcut : pre ++ suf = bs)
    (hne : suf ≠ []) : Ends E now IsError (b :: pre) := by
  intro fuel x db d hfuel
  obtain _ | fuel := fuel
  · simp at hfuel
  obtain ⟨x', db', htakes⟩ := h x db
  obtain ⟨e, d', he⟩ := htakes.cuts pre suf (crc64Step d b) hcut hne
  rw [loadLoop_cons, he]
  exact ⟨e, rfl⟩

lemma ends_skipped {pre suf : Bytes}
    (h : ∀ x db, Reader.Skips crc64Step (loadRecord E now b x db) bs (some (x, db))) (hcut : pre ++ suf = bs)
    (hne : suf ≠ []) : Ends E now IsOk (b :: pre) := by
  intro fuel x db d hfuel
  obtain _ | fuel := fuel
  · simp at hfuel
  obtain ⟨d', he⟩ := (h x db).cuts pre suf (crc64Step d b) hcut hne
  rw [loadLoop_cons, he]
  refine ends_nil fuel x db d' ?_
  exact Nat.lt_of_le_of_lt (Nat.zero_le _) (Nat.lt_of_succ_lt_succ hfuel)

/-! ## Before the entries -/

/-- A piece of the file of which any part, and all of it, is passed over. -/
def Lenient (E : Env) (now : Clock) (bs : Bytes) : Prop :=
  (∀ pre suf, pre ++ suf = bs → suf ≠ [] → Ends E now IsOk pre) ∧
    ∀ P rest, Ends E now P rest → Ends E now P (bs ++ rest)

lemma lenient_nil : Lenient E now [] :=
  ⟨fun _ _ h hne => absurd (append_eq_nil_iff.1 h).2 hne, fun _ _ h => h⟩

lemma Lenient.append {as : Bytes} (ha : Lenient E now as) (hb : Lenient E now bs) : Lenient E now (as ++ bs) := by
  refine ⟨fun pre suf h hne => ?_, fun P rest h => ?_⟩
  · rcases append_eq_append_iff.1 h with ⟨mid, rfl, rfl⟩ | ⟨mid, rfl, rfl⟩
    · by_cases hmid : mid = []
      · subst hmid
        have := ha.2 IsOk [] ends_nil
        rwa [append_nil, append_nil] at this
      · exact ha.1 pre mid rfl hmid
    · exact ha.2 IsOk mid (hb.1 mid suf rfl hne)
  · rw [append_assoc]
    exact ha.2 P _ (hb.2 P rest h)

lemma lenient_record
    (h : ∀ x db, Reader.Skips crc64Step (loadRecord E now b x db) bs (some (x, db))) : Lenient E now (b :: bs) := by
  refine ⟨fun pre suf heq hne => ?_, fun P rest hrest => ends_turn (fun x db => ⟨x, db, (h x db).reads⟩) hrest⟩
  obtain _ | ⟨c, pre⟩ := pre
  · exact ends_nil
  · obtain ⟨rfl, htail⟩ := List.cons.inj heq
    exact ends_skipped h htail hne

lemma lenient_aux {key val : Bytes} (hk : key.length < 2 ^ 63) (hv : val.length < 2 ^ 63) :
    Lenient E now (writeAux key val) :=
  lenient_record fun _ _ => (takes_readString hk).skip.bind ((takes_readString hv).skip.map (.pure _))

lemma lenient_prelude (savedAt : Option Clock) : Lenient E now (writePrelude savedAt) := by
  cases savedAt with
  | none => exact lenient_nil
  | some at_ =>
  have hctime : (formatInt (at_.ns / 10 ^ 9)).length < 2 ^ 63 :=
    (formatInt_length_le (by have := at_.bound; unfold InInt64; omega)).trans_lt (by decide)
  have hselect : Lenient E now (writeSelectDB 0) :=
    lenient_record fun _ _ => (takes_readLen (by decide)).skip.map (.pure _)
  exact (((lenient_aux (by decide) (by decide)).append (lenient_aux (by decide) (by decide))).append
    (lenient_aux (by decide) hctime)).append hselect

/-! ## The entries -/

/-- The records of an entry: the opcode of its deadline, if it has one, and its value. -/
def entryRecords (E : Env) (e : Bytes × Entry) : List Bytes := [writeExpire e.2.expireAt, writeValue E e.1 e.2.val]

def records (E : Env) (entries : List (Bytes × Entry)) : List Bytes := entries.flatMap (entryRecords E)

/-- The position `n` lies strictly inside one of the records, one after the other. -/
def InsideOf : List Bytes → Nat → Prop
  | [], _ => False
  | r :: rs, n => (0 < n ∧ n < r.length) ∨ (r.length ≤ n ∧ InsideOf rs (n - r.length))

/-- Nothing, or a record whose reader takes it. -/
def Strict (E : Env) (now : Clock) (r : Bytes) : Prop :=
  r = [] ∨ ∃ b bs, r = b :: bs ∧ ∀ x db, ∃ x' db', DecTakes (loadRecord E now b x db) bs (some (x', db'))

lemma not_insideOf_end : ∀ (rs : List Bytes) {n : Nat}, rs.flatten.length ≤ n → ¬ InsideOf rs n
  | [], _, _ => id
  | r :: rs, n, h => by
    rw [flatten_cons, length_append] at h
    rintro (⟨-, hlt⟩ | ⟨-, hin⟩)
    · omega
    · exact not_insideOf_end rs (by omega) hin

lemma Strict.ends {r : Bytes} (h : Strict E now r) (hrest : Ends E now P rest) : Ends E now P (r ++ rest) := by
  rcases h with rfl | ⟨b, bs, rfl, h⟩
  · exact hrest
  refine ends_turn (fun x db => ?_) hrest
  obtain ⟨x', db', htakes⟩ := h x db
  exact ⟨x', db', htakes.reads⟩

lemma Strict.cut {r : Bytes} (h : Strict E now r) (hpos : 0 < n) (hlt : n < r.length) :
    Ends E now IsError (r.take n) := by
  rcases h with rfl | ⟨b, bs, rfl, h⟩
  · simp at hlt
  obtain ⟨m, rfl⟩ := Nat.exists_eq_add_of_lt hpos
  have hm : m < bs.length := by simpa using hlt
  rw [show 0 + m + 1 = m + 1 by omega, take_succ_cons]
  refine ends_cut h (take_append_drop m bs) ?_
  rw [ne_eq, drop_eq_nil_iff]
  omega

lemma ends_records (hrest : Ends E now P rest) :
    ∀ rs : List Bytes, (∀ r ∈ rs, Strict E now r) → Ends E now P (rs.flatten ++ rest)
  | [], _ => hrest
  | r :: rs, h => by
    rw [flatten_cons, append_assoc]
    exact (h r mem_cons_self).ends (ends_records hrest rs fun r hr => h r (mem_cons_of_mem _ hr))

lemma ends_records_take : ∀ (rs : List Bytes) (n : Nat), (∀ r ∈ rs, Strict E now r) → n ≤ rs.flatten.length →
    (InsideOf rs n → Ends E now IsError (rs.flatten.take n)) ∧ (¬ InsideOf rs n → Ends E now IsOk (rs.flatten.take n))
  | [], n, _, _ => ⟨False.elim, fun _ => by rw [flatten_nil, take_nil]; exact ends_nil⟩
  | r :: rs, n, h, hn => by
    have hr := h r mem_cons_self
    rw [flatten_cons, length_append] at hn
    rw [flatten_cons, InsideOf]
    by_cases hlt : n < r.length
    · rw [take_append_of_le_length hlt.le]
      refine ⟨fun hin => ?_, fun hout => ?_⟩
      · rcases hin with ⟨hpos, -⟩ | ⟨hle, -⟩
        · exact hr.cut hpos hlt
        · exact absurd hlt (not_lt.2 hle)
      · obtain rfl : n = 0 := by
          by_contra hpos
          exact hout (.inl ⟨Nat.pos_of_ne_zero hpos, hlt⟩)
        exact ends_nil
    · obtain ⟨hin, hout⟩ := ends_records_take rs (n - r.length) (fun r hr => h r (mem_cons_of_mem _ hr)) (by omega)
      have htake : (r ++ rs.flatten).take n = r ++ rs.flatten.take (n - r.length) := by
        rw [take_append, take_of_length_le (not_lt.1 hlt)]
      rw [htake]
      refine ⟨fun h => hr.ends (hin ?_), fun h => hr.ends (hout fun h' => h (.inr ⟨not_lt.1 hlt, h'⟩))⟩
      rcases h with ⟨-, hlt'⟩ | ⟨-, h⟩
      · exact absurd hlt' hlt
      · exact h

/-- What the file of a keyspace without streams is made of: lengths are those of slices in memory. -/
structure Plain (E : Env) (e : Bytes × Entry) : Prop where
  key : e.1.length < 2 ^ 63
  fits : Fits E e.2.val
  noStream : isStream e.2.val = false

lemma strict_expire (n : Int) : Strict E now (writeExpire n) := by
  unfold writeExpire
  split_ifs
  · refine .inr ⟨0xFC, _, rfl, fun x db => ⟨wrap64 (leVal (leBytes 8 n.toNat)), db, ?_⟩⟩
    exact (takes_readFull (leBytes_length 8 _)).map (.pure _)
  · exact .inl rfl

lemma strict_value {e : Bytes × Entry} (h : Plain E e) : Strict E now (writeValue E e.1 e.2.val) := by
  obtain ⟨op, bs, v', hop, hw, htakes, -⟩ := takes_value e.1 h.noStream h.fits
  refine .inr ⟨op, _, hw, fun x db => ⟨0, storeLoaded now db e.1 v' x, ?_⟩⟩
  rw [loadRecord_value hop]
  exact (takes_readString h.key).bind (htakes.map (.pure _))

lemma strict_records {entries : List (Bytes × Entry)} (h : ∀ e ∈ entries, Plain E e) :
    ∀ r ∈ records E entries, Strict E now r := by
  intro r hr
  obtain ⟨e, he, hr⟩ := mem_flatMap.1 hr
  rw [entryRecords, mem_cons, mem_singleton] at hr
  rcases hr with rfl | rfl
  · exact strict_expire _
  · exact strict_value (h e he)

lemma flatten_records (E : Env) (entries : List (Bytes × Entry)) :
    (records E entries).flatten = entries.flatMap fun e => writeEntry E e.1 e.2 := by
  induction entries with
  | nil => rfl
  | cons e es ih =>
    rw [records, flatMap_cons, flatten_append, ← records, ih, flatMap_cons]
    simp [entryRecords, writeEntry]

/-! ## The whole file -/

lemma ends_footer {crc : Bytes} (hcrc : crc.length = 8) (hn : n < 9) : Ends E now IsOk ((0xFF :: crc).take n) := by
  obtain _ | n := n
  · exact ends_nil
  intro fuel x db d hfuel
  obtain _ | fuel := fuel
  · simp at hfuel
  have hshort : ¬ 8 ≤ (crc.take n).length := by
    rw [length_take]
    omega
  have hfooter : readFooter ⟨crc.take n, crc64Step d 0xFF⟩ = (.ok (), ⟨[], crc64Step d 0xFF⟩) := by
    rw [readFooter, if_neg hshort]
  have hrec : loadRecord E now 0xFF x db ⟨crc.take n, crc64Step d 0xFF⟩ = (.ok none, ⟨[], crc64Step d 0xFF⟩) := by
    rw [show loadRecord E now 0xFF x db = readFooter >>= fun _ => pure none from rfl, Reader.bind_ok hfooter]
    rfl
  rw [take_succ_cons, loadLoop_cons, hrec]
  rfl

/-- Where `Load` reports a cut: in the header, or strictly inside the opcode of a deadline or the record
of a value. -/
def CutReported (E : Env) (savedAt : Clock) (entries : List (Bytes × Entry)) (n : Nat) : Prop :=
  let start := writeHeader.length + (writePrelude (some savedAt)).length
  n < writeHeader.length ∨ (start ≤ n ∧ InsideOf (records E entries) (n - start))

lemma load_header (h : Ends E now P rest) (db : Keyspace) : P (load E now (writeHeader ++ rest) db).1 := by
  exact h _ 0 db _ (Nat.lt_succ_self _)

lemma load_cut_header (h : n < writeHeader.length) (rest : Bytes) (db : Keyspace) :
    IsError (load E now ((writeHeader ++ rest).take n) db).1 := by
  obtain ⟨e, d', he⟩ := takes_readHeader.cuts (writeHeader.take n) (writeHeader.drop n) 0 (take_append_drop ..)
    (by rw [ne_eq, drop_eq_nil_iff]; omega)
  rw [take_append_of_le_length h.le, load, he]
  exact ⟨e, rfl⟩

/-- A part of the file that `Save` writes for a keyspace without streams is refused exactly if it ends in
the header or inside a record. -/
theorem load_cut_iff {entries : List (Bytes × Entry)} (hplain : ∀ e ∈ entries, Plain E e) (savedAt : Clock)
    (db : Keyspace) {n : Nat} (hn : n < (writeSnapshot E (some savedAt) entries).length) :
    (∃ e, (load E now ((writeSnapshot E (some savedAt) entries).take n) db).1 = .error e) ↔
      CutReported E savedAt entries n := by
  have hrecords : ∀ r ∈ records E entries, Strict E now r := strict_records hplain
  obtain ⟨hpart, hwhole⟩ : Lenient E now (writePrelude (some savedAt)) := lenient_prelude _
  unfold CutReported
  rw [writeSnapshot, writeFooter, ← flatten_records] at hn ⊢
  generalize hcrc : leBytes 8 (crc64 0 (writeHeader ++ (writePrelude (some savedAt) ++ (records E entries).flatten) ++
    [0xFF])).toNat = crc at hn ⊢
  have hlen : crc.length = 8 := hcrc ▸ leBytes_length 8 _
  simp only [append_assoc] at hn ⊢
  generalize writePrelude (some savedAt) = prelude at hpart hwhole hn ⊢
  generalize records E entries = rs at hrecords hn ⊢
  simp only [length_append, length_cons, hlen] at hn
  by_cases hheader : n < writeHeader.length
  · exact iff_of_true (load_cut_header hheader _ db) (.inl hheader)
  obtain ⟨m, rfl⟩ := Nat.exists_eq_add_of_le (not_lt.1 hheader)
  rw [take_length_add_append, Nat.add_sub_add_left]
  simp only [Nat.add_le_add_iff_left, not_lt.2 (Nat.le_add_right ..), false_or]
  -- an ending of the loop decides both sides
  have hok : Ends E now IsOk ((prelude ++ (rs.flatten ++ 0xFF :: crc)).take m) →
      ¬ (prelude.length ≤ m ∧ InsideOf rs (m - prelude.length)) → (IsError (load E now (writeHeader ++
        (prelude ++ (rs.flatten ++ 0xFF :: crc)).take m) db).1 ↔ prelude.length ≤ m ∧ InsideOf rs (m - prelude.length)) :=
    fun hends hout => iff_of_false (not_isError_of_isOk (load_header hends db)) hout
  by_cases hprelude : m < prelude.length
  · refine hok ?_ fun h => absurd hprelude (not_lt.2 h.1)
    rw [take_append_of_le_length hprelude.le]
    exact hpart _ (prelude.drop m) (take_append_drop ..) (by rw [ne_eq, drop_eq_nil_iff]; omega)
  obtain ⟨k, rfl⟩ := Nat.exists_eq_add_of_le (not_lt.1 hprelude)
  rw [Nat.add_sub_cancel_left, take_length_add_append] at *
  by_cases hk : k ≤ rs.flatten.length
  · obtain ⟨hin, hout⟩ := ends_records_take rs k hrecords hk
    by_cases hcut : InsideOf rs k
    · refine iff_of_true (load_header (hwhole IsError _ ?_) db) ⟨Nat.le_add_right .., hcut⟩
      rw [take_append_of_le_length hk]
      exact hin hcut
    refine hok (hwhole _ _ ?_) fun h => hcut h.2
    rw [take_append_of_le_length hk]
    exact hout hcut
  · obtain ⟨j, rfl⟩ := Nat.exists_eq_add_of_le (not_le.1 hk).le
    refine hok (hwhole _ _ ?_) fun h => not_insideOf_end rs (Nat.le_add_right ..) h.2
    rw [take_length_add_append]
    exact ends_records (ends_footer hlen (by omega)) rs hrecords

lemma twoStrings_plain : ∀ e ∈ twoStrings.entries, Plain Env.bits e := by
  simp only [twoStrings, forall_mem_cons, not_mem_nil, false_implies, implies_true, and_true]
  exact ⟨⟨by decide, show 1 < 2 ^ 63 by decide, rfl⟩, ⟨by decide, show 1 < 2 ^ 63 by decide, rfl⟩⟩

/-- Cut in the deadline of its first string, the file is refused. -/
theorem load_cut_deadline_refused :
    ∃ e, (load Env.bits Clock.zero ((writeSnapshot Env.bits (some Clock.zero) twoStrings.entries).take 57) ∅).1 =
      .error e :=
  (load_cut_iff twoStrings_plain Clock.zero ∅ (by decide)).2 (.inr ⟨by decide, .inl (by decide)⟩)

/-- Cut after its first string, the file loads without an error, and the second string is lost. -/
theorem load_cut_between_accepted : 66 < (writeSnapshot Env.bits (some Clock.zero) twoStrings.entries).length ∧
      (load Env.bits Clock.zero ((writeSnapshot Env.bits (some Clock.zero) twoStrings.entries).take 66) ∅).1 = .ok () ∧
      ((load Env.bits Clock.zero ((writeSnapshot Env.bits (some Clock.zero) twoStrings.entries).take 66) ∅).2.lookup
        [98]).isNone := by
  refine ⟨by decide, rfl, rfl⟩

end Gopherdis.Rdb
