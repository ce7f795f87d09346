/-
The form in which `SET` is propagated. Read back, the rewritten options come to the last of the
absolute deadlines, or to keeping the old one; a deadline that has passed turns the whole command
into a deletion, whichever option the handler goes by.
-/
import Gopherdis.Propagate.Agree

namespace Gopherdis.Command

open Lib Codec Object Store

/-! ## Storing -/

/-- The deadline a value is stored with, where the key had `old`. -/
def Expiry.deadline (x : Expiry) (now : Clock) (old : Int) : Int :=
  match x.ttl with
  | some ttl => (now.ns + ttl) / 10 ^ 6
  | none => if 0 < x.expAt then x.expAt else if x.keepTTL then old else 0

def deadlineOf (e : Option Entry) : Int := (e.map Entry.expireAt).getD 0

lemma Expiry.store_spec (x : Expiry) (now : Clock) (key val : Bytes) (db : Keyspace) :
    Becomes db key (x.store now key val db) (some ⟨.str val, x.deadline now (deadlineOf (db.lookup key))⟩) := by
  unfold Expiry.store Expiry.deadline
  rcases x.ttl with _ | ttl
  · split_ifs with hexp hkeep
    · have hset : Becomes db key (db.set key (.str val)) (some ⟨.str val, 0⟩) := Becomes.insert db key _
      have hlive : (db.set key (.str val)).live key now.ms = some ⟨.str val, 0⟩ := live_of_lookup hset.at_key rfl
      have h := (setExpireAt_spec (db.set key (.str val)) now key x.expAt).2
      rw [hlive] at h
      exact hset.trans h
    all_goals exact Becomes.insert db key _
  · exact Becomes.insert db key _

lemma Expiry.option_keepTTL {e e' : Expiry} {x : ExpireOpt} {n : Int} (h : e.option x n = some e') :
    e'.keepTTL = e.keepTTL := by
  unfold Expiry.option at h
  cases x <;> simp only at h <;> (try split_ifs at h) <;> (cases h; rfl)

/-! ## The deadlines of the options -/

/-- The deadline options of a `SET` in their order, with their numbers. -/
def setDeadlines : List Bytes → List (ExpireOpt × Int)
  | [] => []
  | word :: rest =>
    match expireOpt? (toUpper word) with
    | some x =>
      match rest with
      | [] => []
      | num :: rest =>
        match parseInt num with
        | none => []
        | some n => (x, n) :: setDeadlines rest
    | none =>
    match compareMode? (toUpper word) with
    | none => setDeadlines rest
    | some _ =>
      match rest with
      | [] => []
      | _ :: rest => setDeadlines rest

variable (now : Int)

/-- The same as absolute deadlines. -/
def absDeadlines (words : List Bytes) : List Int :=
  (setDeadlines words).map fun p => p.1.absMs now p.2

lemma isCompareWord_eq (opt : Bytes) : isCompareWord opt = (compareMode? opt).isSome := by
  unfold isCompareWord compareMode?
  split_ifs <;> simp [*]

/-- What the walk over the options leaves: a deletion if a deadline has passed, and otherwise options
that are read as the last deadline and whether to keep the old one. -/
inductive FormOf (now : Int) (words : List Bytes) (keep : Bool) : SetForm → Prop
  | delete (d : Int) (hmem : d ∈ absDeadlines now words) (hpast : d ≤ now) : FormOf now words keep .delete
  | args (out : List Bytes) (hall : ∀ d ∈ absDeadlines now words, now < d)
      (hread : ∀ o : SetOpts, setOptions out o = .ok { o with
        expiry.expAt := (absDeadlines now words).getLast?.getD o.expiry.expAt
        expiry.keepTTL := o.expiry.keepTTL || keep }) : FormOf now words keep (.args out)

section
variable {now : Int} {words rest : List Bytes} {keep : Bool} {f : SetForm}

lemma FormOf.skip (hds : absDeadlines now words = absDeadlines now rest) (h : FormOf now rest keep f) :
    FormOf now words keep f := by
  cases h with
  | delete d hmem hpast => exact .delete d (hds ▸ hmem) hpast
  | args out hall hread => exact .args out (hds ▸ hall) (hds ▸ hread)

lemma FormOf.deadline {d : Int} {ws : List Bytes} (hds : absDeadlines now words = d :: absDeadlines now rest)
    (hd : now < d) (hws : ∀ out (o : SetOpts), setOptions (ws ++ out) o = setOptions out { o with expiry.expAt := d })
    (h : FormOf now rest keep f) : FormOf now words keep (f.cons ws) := by
  cases h with
  | delete d' hmem hpast => exact .delete d' (hds ▸ List.mem_cons_of_mem _ hmem) hpast
  | args out hall hread =>
    refine .args (ws ++ out) (hds ▸ List.forall_mem_cons.2 ⟨hd, hall⟩) fun o => ?_
    rw [hws, hread, hds, List.getLast?_cons]
    rfl

lemma FormOf.keepTTL {word : Bytes} (hds : absDeadlines now words = absDeadlines now rest)
    (hword : ∀ out (o : SetOpts), setOptions (word :: out) o = setOptions out { o with expiry.keepTTL := true })
    (h : FormOf now rest keep f) : FormOf now words true (f.cons [word]) := by
  cases h with
  | delete d' hmem hpast => exact .delete d' (hds ▸ hmem) hpast
  | args out hall hread =>
    refine .args (word :: out) (hds ▸ hall) fun o => ?_
    rw [hword, hread, hds]
    simp

end

section
variable {word num : Bytes} {rest : List Bytes} {x : ExpireOpt} {n : Int}

lemma setOptions_pxat (hx : expireOpt? (toUpper word) = some .pxat) (hn : parseInt num = some n) (out : List Bytes)
    (o : SetOpts) : setOptions (word :: num :: out) o = setOptions out { o with expiry.expAt := n } := by
  conv_lhs => unfold setOptions
  simp [hx, hn, Expiry.option]

lemma normalizeSetWords_deadline (now : Int) (hx : expireOpt? (toUpper word) = some x) (hn : parseInt num = some n) :
    ∃ ws, (∀ out (o : SetOpts), setOptions (ws ++ out) o = setOptions out { o with expiry.expAt := x.absMs now n }) ∧
      normalizeSetWords now (word :: num :: rest) =
        if x.absMs now n ≤ now then .delete else (normalizeSetWords now rest).cons ws := by
  have hpxat : ∀ out (o : SetOpts), setOptions ([ascii "PXAT", formatInt (x.absMs now n)] ++ out) o =
      setOptions out { o with expiry.expAt := x.absMs now n } := fun out o =>
    setOptions_pxat (by decide) (parseInt_formatInt (x.absMs_inInt64 now (parseInt_inInt64 hn))) out o
  cases x with
  | pxat =>
    refine ⟨[word, num], fun out o => setOptions_pxat hx hn out o, ?_⟩
    conv_lhs => unfold normalizeSetWords
    simp only [hx, hn, Option.any_some, decide_eq_true_eq]
    rfl
  | _ =>
    refine ⟨_, hpxat, ?_⟩
    conv_lhs => unfold normalizeSetWords
    simp [hx, hn]

lemma setDeadlines_deadline (hx : expireOpt? (toUpper word) = some x) (hn : parseInt num = some n) :
    setDeadlines (word :: num :: rest) = (x, n) :: setDeadlines rest := by
  conv_lhs => unfold setDeadlines
  simp [hx, hn]

lemma setDeadlines_plain (hx : expireOpt? (toUpper word) = none) (hc : compareMode? (toUpper word) = none) :
    setDeadlines (word :: rest) = setDeadlines rest := by
  conv_lhs => unfold setDeadlines
  simp [hx, hc]

variable {mode : CompareMode}

lemma setDeadlines_compare (hx : expireOpt? (toUpper word) = none)
    (hc : compareMode? (toUpper word) = some mode) : setDeadlines (word :: num :: rest) = setDeadlines rest := by
  conv_lhs => unfold setDeadlines
  simp [hx, hc]

lemma absDeadlines_deadline (now : Int) (hx : expireOpt? (toUpper word) = some x) (hn : parseInt num = some n) :
    absDeadlines now (word :: num :: rest) = x.absMs now n :: absDeadlines now rest := by
  rw [absDeadlines, setDeadlines_deadline hx hn]
  rfl

lemma absDeadlines_plain (hx : expireOpt? (toUpper word) = none)
    (hc : compareMode? (toUpper word) = none) : absDeadlines now (word :: rest) = absDeadlines now rest := by
  rw [absDeadlines, setDeadlines_plain hx hc, absDeadlines]

lemma absDeadlines_compare (hx : expireOpt? (toUpper word) = none) (hc : compareMode? (toUpper word) = some mode) :
    absDeadlines now (word :: num :: rest) = absDeadlines now rest := by
  rw [absDeadlines, setDeadlines_compare hx hc, absDeadlines]

lemma normalizeSetWords_dropped {w : Bytes} (hword : toUpper word = w)
    (hw : w = ascii "NX" ∨ w = ascii "XX" ∨ w = ascii "GET") :
    normalizeSetWords now (word :: rest) = normalizeSetWords now rest ∧
      absDeadlines now (word :: rest) = absDeadlines now rest := by
  have hx : expireOpt? (toUpper word) = none ∧ compareMode? (toUpper word) = none := by
    rw [hword]
    obtain rfl | rfl | rfl := hw <;> decide
  refine ⟨?_, absDeadlines_plain now hx.1 hx.2⟩
  rw [← hword] at hw
  conv_lhs => unfold normalizeSetWords
  simp [hx.1, if_pos hw]

lemma normalizeSetWords_keepTTL (hword : toUpper word = ascii "KEEPTTL") :
    normalizeSetWords now (word :: rest) = (normalizeSetWords now rest).cons [word] ∧
      absDeadlines now (word :: rest) = absDeadlines now rest ∧
      ∀ out (o : SetOpts), setOptions (word :: out) o = setOptions out { o with expiry.keepTTL := true } := by
  have hx : expireOpt? (toUpper word) = none ∧ compareMode? (toUpper word) = none ∧
      isCompareWord (toUpper word) = false ∧
      ¬ (toUpper word = ascii "NX" ∨ toUpper word = ascii "XX" ∨ toUpper word = ascii "GET") := by
    rw [hword]
    decide
  obtain ⟨hx, hc, hcw, hdrop⟩ := hx
  refine ⟨?_, absDeadlines_plain now hx hc, fun out o => ?_⟩
  · conv_lhs => unfold normalizeSetWords
    simp [hx, if_neg hdrop, hcw, Bool.false_eq_true]
  · rw [not_or, not_or] at hdrop
    conv_lhs => unfold setOptions
    simp [hx, if_neg hdrop.1, if_neg hdrop.2.1, if_neg hdrop.2.2, if_pos hword]

lemma normalizeSetWords_compare (hx : expireOpt? (toUpper word) = none)
    (hdrop : ¬ (toUpper word = ascii "NX" ∨ toUpper word = ascii "XX" ∨ toUpper word = ascii "GET"))
    (hc : compareMode? (toUpper word) = some mode) :
    normalizeSetWords now (word :: num :: rest) = normalizeSetWords now rest := by
  conv_lhs => unfold normalizeSetWords
  simp [hx, if_neg hdrop, isCompareWord_eq, hc, Option.isSome_some]

end

lemma normalizeSetWords_form {words : List Bytes} {o o1 : SetOpts} (h : setOptions words o = .ok o1) :
    ∃ keep, o1.expiry.keepTTL = (o.expiry.keepTTL || keep) ∧ FormOf now words keep (normalizeSetWords now words) := by
  fun_induction setOptions words o
  case case1 =>
    cases h
    exact ⟨false, by simp, .args [] (by simp [absDeadlines, setDeadlines]) fun o => by
      simp [setOptions, absDeadlines, setDeadlines]⟩
  case case2 | case3 | case4 | case10 | case11 | case12 => cases h
  case case5 x hx num rest n hn expiry hexp ih =>
    obtain ⟨keep, hkeep, hform⟩ := ih h
    obtain ⟨ws, hws, hnorm⟩ := @normalizeSetWords_deadline _ num rest x n now hx hn
    have hds := @absDeadlines_deadline _ num rest x n now hx hn
    refine ⟨keep, ?_, ?_⟩
    · rw [hkeep]
      simp [Expiry.option_keepTTL hexp]
    · rw [hnorm]
      split_ifs with hpast
      · exact .delete _ (hds ▸ List.mem_cons_self ..) hpast
      · exact .deadline hds (not_le.1 hpast) hws hform
  case case6 hword ih =>
    obtain ⟨keep, hkeep, hform⟩ := ih h
    obtain ⟨hnorm, hds⟩ := normalizeSetWords_dropped now hword (.inl rfl)
    exact ⟨keep, hkeep, by rw [hnorm]; exact .skip hds hform⟩
  case case7 hword ih =>
    obtain ⟨keep, hkeep, hform⟩ := ih h
    obtain ⟨hnorm, hds⟩ := normalizeSetWords_dropped now hword (.inr (.inl rfl))
    exact ⟨keep, hkeep, by rw [hnorm]; exact .skip hds hform⟩
  case case8 hword ih =>
    obtain ⟨keep, hkeep, hform⟩ := ih h
    obtain ⟨hnorm, hds⟩ := normalizeSetWords_dropped now hword (.inr (.inr rfl))
    exact ⟨keep, hkeep, by rw [hnorm]; exact .skip hds hform⟩
  case case9 hword ih =>
    obtain ⟨keep, hkeep, hform⟩ := ih h
    obtain ⟨hnorm, hds, hread⟩ := normalizeSetWords_keepTTL now hword
    exact ⟨true, by simp [hkeep], by rw [hnorm]; exact .keepTTL hds hread hform⟩
  case case13 hx hnx hxx hget _ mode hc num rest _ ih =>
    obtain ⟨keep, hkeep, hform⟩ := ih h
    refine ⟨keep, hkeep, ?_⟩
    rw [normalizeSetWords_compare now hx (not_or.2 ⟨hnx, not_or.2 ⟨hxx, hget⟩⟩) hc]
    exact .skip (absDeadlines_compare now hx hc) hform

end Gopherdis.Command
