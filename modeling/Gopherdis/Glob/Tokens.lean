/-
What a glob pattern means: a run of stars stands for any bytes, every other token for one byte it accepts. The
matcher decides this up to its bound on nested stars, although it gives up all searches once one has come to the
end of the string: a search that fails there fails from every later start too.
-/
import Mathlib.Data.List.Forall2
import Mathlib.Tactic.Tauto
import Gopherdis.Glob.Match

namespace Gopherdis.Glob

open Lib List

/-! ## Tokens -/

/-- A member of a class. -/
inductive Item
  | byte (b : UInt8)
  | escaped (b : UInt8)
  | range (lo hi : UInt8)

/-- A token that stands for one byte. -/
inductive One
  | any
  | set (neg : Bool) (items : List Item)
  | literal (b : UInt8)

inductive Token
  | star
  | one (o : One)

def Token.isStar : Token → Bool
  | star => true
  | one _ => false

def Token.one? : Token → Option One
  | star => none
  | one o => some o

/-- Folding case leaves out an escaped member of a class. -/
def Item.accepts (fold : Bool) (c : UInt8) : Item → Bool
  | byte b => sameByte fold b c
  | escaped b => b == c
  | range lo hi => inRange fold lo hi c

def One.accepts (fold : Bool) (c : UInt8) : One → Bool
  | any => true
  | set neg items => neg ^^ items.any (Item.accepts fold c)
  | literal b => sameByte fold b c

/-- The members of a class up to its closing bracket or the end of the pattern, and the bytes read. -/
def classItems : Bytes → List Item × Nat
  | [] => ([], 0)
  | 93 :: _ => ([], 1)
  | 92 :: b :: rest => (.escaped b :: (classItems rest).1, (classItems rest).2 + 2)
  | lo :: 45 :: hi :: rest =>
    if hi = 93 then (.byte lo :: (classItems (45 :: hi :: rest)).1, (classItems (45 :: hi :: rest)).2 + 1)
    else (.range lo hi :: (classItems rest).1, (classItems rest).2 + 3)
  | b :: rest => (.byte b :: (classItems rest).1, (classItems rest).2 + 1)

def classToken : Bytes → One × Nat
  | 94 :: rest => (.set true (classItems rest).1, (classItems rest).2 + 2)
  | rest => (.set false (classItems rest).1, (classItems rest).2 + 1)

/-- The token that starts with a byte other than a star, and the pattern after it. -/
def oneToken (p : UInt8) (ps : Bytes) : One × Bytes :=
  if p = 63 then (.any, ps)
  else if p = 91 then ((classToken ps).1, (p :: ps).drop (classToken ps).2)
  else if p = 92 then (.literal (ps.headD 92), ps.tail)
  else (.literal p, ps)

/-- A run of stars is one token. -/
def tokens : Nat → Bytes → List Token
  | 0, _ => []
  | _ + 1, [] => []
  | fuel + 1, p :: ps =>
    if p = 42 then .star :: tokens fuel (ps.dropWhile (· == 42))
    else .one (oneToken p ps).1 :: tokens fuel (oneToken p ps).2

def tokenize (p : Bytes) : List Token := tokens p.length p

/-- The strings a pattern stands for. -/
def Matches (fold : Bool) : List Token → Bytes → Prop
  | [], s => s = []
  | .star :: ts, s => ∃ k, Matches fold ts (s.drop k)
  | .one o :: ts, s => ∃ c r, s = c :: r ∧ o.accepts fold c = true ∧ Matches fold ts r

/-- The stars that the matcher nests, all but one at the end. -/
def nested : List Token → Nat
  | [] => 0
  | .star :: ts => if ts = [] then 0 else nested ts + 1
  | .one _ :: ts => nested ts

/-- What the matcher can find when it is `n` stars deep. -/
def Found (fold : Bool) (n : Nat) (ts : List Token) (s : Bytes) : Prop :=
  Matches fold ts s ∧ n + nested ts ≤ maxNesting

variable {fold : Bool} {n fuel : Nat} {o : One} {t : Token} {ts : List Token} {c p : UInt8} {ps s s' : Bytes}

lemma found_one : Found fold n (.one o :: ts) (c :: s) ↔ o.accepts fold c = true ∧ Found fold n ts s := by
  simp [Found, Matches, nested, and_assoc]

lemma found_star (hts : ts ≠ []) : Found fold n (.star :: ts) s ↔ ∃ k, Found fold (n + 1) ts (s.drop k) := by
  simp only [Found, Matches, nested, if_neg hts, exists_and_right, and_congr_right_iff]
  omega

lemma not_found_one_nil : ¬Found fold n (.one o :: ts) [] := by
  rintro ⟨⟨c, r, hs, -⟩, -⟩
  cases hs

/-! ## The matcher reads tokens -/

lemma classLoop_eq (m : Bool) (k : Nat) : classLoop fold c ps m k =
    (m || (classItems ps).1.any (Item.accepts fold c), k + (classItems ps).2) := by
  fun_induction classLoop fold c ps m k <;>
    simp_all [classItems, Item.accepts, Bool.or_assoc, Nat.add_assoc, Nat.add_comm]

lemma matchClass_eq : matchClass fold c ps = ((classToken ps).1.accepts fold c, (classToken ps).2) := by
  unfold matchClass classToken
  split <;> simp [classLoop_eq, One.accepts, Nat.add_comm]

lemma classToken_pos : 1 ≤ (classToken ps).2 := by
  fun_cases classToken ps <;> simp

lemma length_oneToken_le : (oneToken p ps).2.length ≤ ps.length := by
  have hpos : 1 ≤ (classToken ps).2 := classToken_pos
  unfold oneToken
  split_ifs <;> simp
  omega

lemma matchImpl_one (hp : p ≠ 42) (hn : n ≤ maxNesting) : matchImpl fold (fuel + 1) n (p :: ps) (c :: s) false =
    if (oneToken p ps).1.accepts fold c then matchImpl fold fuel n (oneToken p ps).2 s false else (false, false) := by
  rw [matchImpl, if_neg (not_lt.2 hn), if_neg hp]
  by_cases h63 : p = 63
  · simp [h63, oneToken, One.accepts]
  by_cases h91 : p = 91
  · simp [h91, oneToken, matchClass_eq]
  by_cases h92 : p = 92
  · simp [h92, oneToken, One.accepts]
  · simp [h63, h91, h92, oneToken, One.accepts]

lemma tokens_dropWhile (hps : ps.length ≤ fuel) : ps.dropWhile (· == 42) = [] ∨
    ps.dropWhile (· == 42) ≠ [] ∧ ∃ o ts, tokens fuel (ps.dropWhile (· == 42)) = .one o :: ts := by
  have hlen : (ps.dropWhile (· == 42)).length ≤ fuel := (dropWhile_sublist _).length_le.trans hps
  have hhead := head?_dropWhile_not (· == 42) ps
  generalize ps.dropWhile (· == 42) = rest at hlen hhead ⊢
  rcases rest with _ | ⟨q, qs⟩
  · exact .inl rfl
  rcases fuel with _ | fuel
  · simp at hlen
  · have hq : q ≠ 42 := by simpa using hhead
    exact .inr ⟨cons_ne_nil _ _, _, _, by rw [tokens, if_neg hq]⟩

/-! ## The search -/

/-- A search is right about its start, and with the flag set about every later start too. -/
structure Decides (P : Bytes → Prop) (s : Bytes) (r : Bool × Bool) : Prop where
  result : r.1 = true ↔ P s
  flag : r.2 = true → ∀ k, ¬P (s.drop k)

lemma Decides.starLoop {P : Bytes → Prop} {rest : Bytes → Bool → Bool × Bool}
    (hrest : ∀ c s, Decides P (c :: s) (rest (c :: s) false)) (hnil : ¬P []) (s : Bytes) :
    Decides (fun s => ∃ k, P (s.drop k)) s (starLoop rest s false) := by
  induction s with
  | nil => exact ⟨by simp [Glob.starLoop, hnil], by simp [hnil]⟩
  | cons c s ih =>
  have hsplit : (∃ k, P ((c :: s).drop k)) ↔ P (c :: s) ∨ ∃ k, P (s.drop k) := by
    rw [← Nat.or_exists_add_one]
    rfl
  have hdrop : ∀ k j, ((c :: s).drop k).drop j = (c :: s).drop (k + j) := fun k j => drop_drop
  have h := hrest c s
  rw [Glob.starLoop]
  rcases hr : rest (c :: s) false with ⟨_ | _, _ | _⟩ <;> rw [hr] at h
  · -- the search goes on with the next start
    have hfirst : ¬P (c :: s) := fun hP => absurd (h.result.2 hP) Bool.false_ne_true
    refine ⟨?_, ?_⟩
    · rw [ih.result, hsplit, or_iff_right hfirst]
    · rintro hset k ⟨j, hj⟩
      rw [hdrop] at hj
      exact ((hsplit.1 ⟨_, hj⟩).resolve_left hfirst).elim fun i hi => ih.flag hset 0 ⟨i, hi⟩
  · refine ⟨by simpa using h.flag rfl, ?_⟩
    rintro - k ⟨j, hj⟩
    exact h.flag rfl _ (hdrop k j ▸ hj)
  · exact ⟨by simpa using ⟨0, h.result.1 rfl⟩, by simp⟩
  · exact absurd (h.result.1 rfl) (h.flag rfl 0)

lemma Decides.one {r : Bool × Bool} (h : Decides (Found fold n ts) s r) (ho : o.accepts fold c = true) :
    Decides (Found fold n (.one o :: ts)) (c :: s) r := by
  refine ⟨by simpa [found_one, ho] using h.result, fun hset k hk => ?_⟩
  rcases hs : (c :: s).drop k with _ | ⟨d, r⟩
  · exact not_found_one_nil (hs ▸ hk)
  rw [hs, found_one] at hk
  have hr : s.drop k = r := by
    rw [← drop_succ_cons, ← drop_drop, hs, drop_one, tail_cons]
  exact h.flag hset k (hr ▸ hk.2)

lemma decides_nil (hn : n ≤ maxNesting) : Decides (Found fold n []) s (finish [] s, false) :=
  ⟨by simp [finish, Found, Matches, nested, hn], by simp⟩

lemma matchImpl_decides (hps : ps.length ≤ fuel) (hn : n ≤ maxNesting ∨ ps ≠ [] ∧ s ≠ []) :
    Decides (Found fold n (tokens fuel ps)) s (matchImpl fold fuel n ps s false) := by
  induction fuel generalizing n ps s with
  | zero =>
    obtain rfl := length_eq_zero_iff.1 (Nat.le_zero.1 hps)
    exact decides_nil (by simpa using hn)
  | succ fuel ih =>
  rcases ps with _ | ⟨p, ps⟩
  · exact decides_nil (by simpa using hn)
  have hlen : ps.length ≤ fuel := Nat.le_of_succ_le_succ hps
  rcases s with _ | ⟨c, s⟩
  · have hn : n ≤ maxNesting := by simpa using hn
    refine ⟨?_, by simp [matchImpl]⟩
    by_cases hp : p = 42
    · rcases tokens_dropWhile hlen with hstars | ⟨hne, o, ts, htokens⟩
      · have hend : tokens fuel [] = [] := by cases fuel <;> rfl
        simp [matchImpl, finish, hp, tokens, hstars, hend, Found, Matches, nested, hn]
      · simp [matchImpl, finish, hp, tokens, htokens, hne, Found, Matches]
    · simp [matchImpl, finish, hp, tokens, not_found_one_nil]
  by_cases hdeep : maxNesting < n
  · exact ⟨by simp [matchImpl, hdeep, Found]; omega, by simp [matchImpl, hdeep]⟩
  have hn := not_lt.1 hdeep
  by_cases hp : p = 42
  · rcases tokens_dropWhile hlen with hstars | ⟨hne, o, ts, htokens⟩
    · have hend : tokens fuel [] = [] := by cases fuel <;> rfl
      have hall : ∃ k, (c :: s).drop k = [] := ⟨_, drop_length⟩
      simp only [matchImpl, if_neg hdeep, hp, if_true, hstars, tokens, hend]
      exact ⟨by simpa [Found, Matches, nested, hn] using hall, by simp⟩
    have hloop := Decides.starLoop (P := Found fold (n + 1) (tokens fuel (ps.dropWhile (· == 42))))
      (fun c s => ih ((dropWhile_sublist _).length_le.trans hlen) (.inr ⟨hne, cons_ne_nil c s⟩))
      (htokens ▸ not_found_one_nil) (c :: s)
    simp only [matchImpl, if_neg hdeep, hp, if_true, if_neg hne, tokens]
    have hts : tokens fuel (ps.dropWhile (· == 42)) ≠ [] := htokens ▸ cons_ne_nil _ _
    exact ⟨hloop.result.trans (found_star hts).symm, fun hset k hk => hloop.flag hset k ((found_star hts).1 hk)⟩
  · rw [matchImpl_one hp hn, tokens, if_neg hp]
    split_ifs with ho
    · exact (ih (length_oneToken_le.trans hlen) (.inl hn)).one ho
    · exact ⟨by simp [found_one, ho], by simp⟩

lemma matchBytes_iff {p : Bytes} :
    matchBytes p s fold = true ↔ Matches fold (tokenize p) s ∧ nested (tokenize p) ≤ maxNesting := by
  have h : Decides (Found fold 0 (tokenize p)) s _ := matchImpl_decides p.length.le_refl (.inl (Nat.zero_le _))
  rw [matchBytes, h.result, Found, Nat.zero_add]

/-! ## What the matcher decides -/

lemma nested_le (ts : List Token) : nested ts ≤ ts.countP Token.isStar := by
  induction ts with
  | nil => exact Nat.le_refl _
  | cons t ts ih =>
  cases t with
  | star =>
    rw [nested, countP_cons_of_pos rfl]
    split_ifs <;> omega
  | one o => simpa [nested, Token.isStar] using ih

/-- With at most 1000 runs of stars the matcher decides exactly what the pattern means. -/
theorem globMatch_iff (p s : Bytes) (h : (tokenize p).countP Token.isStar ≤ 1000) :
    globMatch p s = true ↔ Matches false (tokenize p) s := by
  have hn : nested (tokenize p) ≤ maxNesting := (nested_le _).trans h
  rw [globMatch, matchBytes_iff, and_iff_left hn]

/-- The search comes to the end of the string in the inner star here. -/
theorem globMatch_two_stars : (globMatch (ascii "*a*b") (ascii "aac") = true ↔
    Matches false (tokenize (ascii "*a*b")) (ascii "aac")) ∧ globMatch (ascii "*a*b") (ascii "aac") = false :=
  ⟨globMatch_iff _ _ (by decide), by decide⟩

/-! ## Case -/

/-- The tokens for one byte. -/
def ones (ts : List Token) : List One := ts.filterMap Token.one?

/-- No string matches. -/
def Dead (fold : Bool) (p : Bytes) : Prop :=
  maxNesting < nested (tokenize p) ∨ ∃ o ∈ ones (tokenize p), ∀ c, o.accepts fold c = false

lemma Matches.exists_sublist (h : Matches fold ts s) :
    ∃ u, u.Sublist s ∧ List.Forall₂ (fun o c => o.accepts fold c = true) (ones ts) u := by
  induction ts generalizing s with
  | nil => exact ⟨[], nil_sublist _, .nil⟩
  | cons t ts ih =>
  cases t with
  | star =>
    obtain ⟨k, hk⟩ := h
    obtain ⟨u, hsub, hu⟩ := ih hk
    exact ⟨u, hsub.trans (drop_sublist k s), hu⟩
  | one o =>
    obtain ⟨c, r, rfl, hc, hr⟩ := h
    obtain ⟨u, hsub, hu⟩ := ih hr
    exact ⟨c :: u, hsub.cons_cons c, .cons hc hu⟩

lemma matches_of_forall₂ (h : List.Forall₂ (fun o c => o.accepts fold c = true) (ones ts) s) : Matches fold ts s := by
  induction ts generalizing s with
  | nil => exact forall₂_nil_left_iff.1 h
  | cons t ts ih =>
  cases t with
  | star => exact ⟨0, ih h⟩
  | one o =>
    obtain ⟨c, r, hc, hr, rfl⟩ := forall₂_cons_left_iff.1 h
    exact ⟨c, r, rfl, hc, ih hr⟩

lemma Matches.transfer {fold' : Bool} (h : Matches fold ts s)
    (hs : List.Forall₂ (fun c c' => ∀ o ∈ ones ts, o.accepts fold c = true → o.accepts fold' c' = true) s s') :
    Matches fold' ts s' := by
  induction ts generalizing s s' with
  | nil =>
    obtain rfl := h
    exact forall₂_nil_left_iff.1 hs
  | cons t ts ih =>
  cases t with
  | star =>
    obtain ⟨k, hk⟩ := h
    exact ⟨k, ih hk (forall₂_drop k hs)⟩
  | one o =>
    obtain ⟨c, r, rfl, hc, hr⟩ := h
    obtain ⟨c', r', hc', hr', rfl⟩ := forall₂_cons_left_iff.1 hs
    exact ⟨c', r', rfl, hc' o mem_cons_self hc,
      ih hr (hr'.imp fun _ _ hcc o ho => hcc o (mem_cons_of_mem _ ho))⟩

lemma exists_accepted {l r : List One} (h : List.Forall₂ (fun o c => o.accepts fold c = true) (l ++ o :: r) s) :
    ∃ c v, o.accepts fold c = true ∧ s.drop l.length = c :: v := by
  have hdrop := forall₂_drop l.length h
  rw [drop_left, forall₂_cons_left_iff] at hdrop
  obtain ⟨c, v, hc, -, hs⟩ := hdrop
  exact ⟨c, v, hc, hs⟩

lemma transfer_iff (fold fold' : Bool) (p : Bytes) {E : UInt8 → UInt8 → Prop} (hE : ∀ c, E c c) :
    (∀ s s', List.Forall₂ E s s' → matchBytes p s fold = true → matchBytes p s' fold' = true) ↔
    Dead fold p ∨ ∀ o ∈ ones (tokenize p), ∀ c c', E c c' → o.accepts fold c = true → o.accepts fold' c' = true := by
  simp only [matchBytes_iff]
  constructor
  · intro h
    by_contra hno
    simp only [Dead, not_or, not_lt, not_exists, not_and, not_forall, Bool.not_eq_false] at hno
    obtain ⟨⟨hnested, hlive⟩, o, ho, c, c', hcc, hc, hc'⟩ := hno
    obtain ⟨l, r, hlr⟩ := append_of_mem ho
    choose! f hf using hlive
    -- a match without a byte for the stars, and the same with `c'` in the place of `c`
    have hmap : ∀ l' ⊆ ones (tokenize p), List.Forall₂ (fun o c => o.accepts fold c = true) l' (l'.map f) :=
      fun l' hl' => forall₂_map_right_iff.2 (forall₂_same.2 fun o ho => hf o (hl' ho))
    have hfirst := rel_append (hmap l (by simp [hlr])) (.cons hc (hmap r (by simp [hlr])))
    have hsecond := h (l.map f ++ c :: r.map f) (l.map f ++ c' :: r.map f)
      (rel_append (forall₂_same.2 fun c _ => hE c) (.cons hcc (forall₂_same.2 fun c _ => hE c)))
      ⟨matches_of_forall₂ (hlr ▸ hfirst), hnested⟩
    obtain ⟨u, hsub, hu⟩ := hsecond.1.exists_sublist
    have hlen : u.length = (l.map f ++ c' :: r.map f).length := by
      rw [← hu.length_eq, hlr]
      simp
    rw [hsub.eq_of_length hlen, hlr] at hu
    obtain ⟨d, v, hd, hv⟩ := exists_accepted hu
    simp only [drop_left', length_map, List.cons.injEq] at hv
    exact hc' (hv.1 ▸ hd)
  · rintro (hdead | hkeep) s s' hss ⟨hm, hn⟩
    · rcases hdead with hdead | ⟨o, ho, hnone⟩
      · exact absurd hn (not_le.2 hdead)
      obtain ⟨u, -, hu⟩ := hm.exists_sublist
      obtain ⟨l, r, hlr⟩ := append_of_mem ho
      obtain ⟨c, -, hc, -⟩ := exists_accepted (hlr ▸ hu)
      exact absurd hc (by simp [hnone])
    · exact ⟨hm.transfer (hss.imp fun c c' hcc o ho => hkeep o ho c c' hcc), hn⟩

/-- Strings that differ in the case of letters only are told apart by the patterns with a class that tells letters
apart, and a match is lost when case is folded by those with a class that loses a member. Either needs a pattern that
matches something. -/
theorem matchFold_ignores_case_iff (p : Bytes) :
    ((∀ s s' : Bytes, s.map lower = s'.map lower → matchFold p s = matchFold p s') ↔
      Dead true p ∨ ∀ o ∈ ones (tokenize p), ∀ c c', lower c = lower c' → o.accepts true c = o.accepts true c') ∧
    ((∀ s, globMatch p s = true → matchFold p s = true) ↔
      Dead false p ∨ ∀ o ∈ ones (tokenize p), ∀ c, o.accepts false c = true → o.accepts true c = true) := by
  constructor
  · have hblind : ∀ {α : Type} (g : α → α → Prop) (f : α → Bool), (∀ a b, g a b → g b a) →
        ((∀ a b, g a b → f a = f b) ↔ ∀ a b, g a b → f a = true → f b = true) := by
      intro α g f hg
      refine ⟨fun h a b hab ha => h a b hab ▸ ha, fun h a b hab => ?_⟩
      exact Bool.eq_iff_iff.2 ⟨h a b hab, h b a (hg a b hab)⟩
    have hlower : ∀ s s' : Bytes, s.map lower = s'.map lower ↔ List.Forall₂ (fun c c' => lower c = lower c') s s' := by
      intro s s'
      rw [← forall₂_eq_eq_eq, forall₂_map_left_iff, forall₂_map_right_iff]
    have h := transfer_iff true true p (E := fun c c' => lower c = lower c') fun _ => rfl
    simp only [← hlower] at h
    rw [hblind _ _ fun _ _ => Eq.symm]
    simp only [hblind _ (One.accepts true · _) fun _ _ => Eq.symm]
    exact h
  · have h := transfer_iff false true p fun _ => rfl
    simp only [forall₂_eq_eq_eq, forall_eq'] at h
    exact h

lemma Item.tells_apart {i : Item} {c c' : UInt8} (hc : lower c = lower c')
    (h : i.accepts true c ≠ i.accepts true c') : ∃ b, i = .escaped b ∧ (b = c ∨ b = c') := by
  cases i with
  | byte b => exact absurd (by simp [accepts, sameByte, hc]) h
  | range lo hi => exact absurd (by simp [accepts, inRange, hc]) h
  | escaped b =>
    by_contra hne
    obtain ⟨h1, h2⟩ : b ≠ c ∧ b ≠ c' := by simpa using hne
    exact h (by simp [accepts, h1, h2])

lemma Item.loses_member {i : Item} {c : UInt8} (h : i.accepts false c = true) (hfold : i.accepts true c = false) :
    ∃ lo hi, i = .range lo hi := by
  cases i with
  | byte b => simp_all [accepts, sameByte]
  | escaped b => simp_all [accepts]
  | range lo hi => exact ⟨lo, hi, rfl⟩

/-- An escaped letter in a class is not folded, and a range from `Z` to `a` has no members left. -/
theorem matchFold_class_slips :
    matchFold (ascii "[\\a]") (ascii "a") = true ∧ matchFold (ascii "[\\a]") (ascii "A") = false ∧
    globMatch (ascii "[Z-a]") (ascii "Z") = true ∧ matchFold (ascii "[Z-a]") (ascii "Z") = false := by
  decide

end Gopherdis.Glob
