/-
Whether rules are applied from left to right. What a user may run is read off sets that keep no order: a denied
category outweighs every allowed name and category, and a denied name every allowed category. So a rule that
allows is not always the last word on a command, although it is written last.
-/
import Gopherdis.Acl.User
import Gopherdis.Lib.Runs

namespace Gopherdis.Acl

open Lib

/-! ## A command's part of a user -/

/-- The part of a user that decides about one command. -/
@[ext] structure Standing where
  deniedName : Bool
  deniedCategory : Bool
  allowedName : Bool
  allowedCategory : Bool
  all : Bool

namespace Standing

def allowed (s : Standing) : Bool :=
  !s.deniedName && !s.deniedCategory && (s.allowedName || s.allowedCategory || s.all)

def none : Standing := ⟨false, false, false, false, false⟩

end Standing

def User.standing (cmdName : Bytes) (cmdFlags : UInt64) (u : User) : Standing where
  deniedName := cmdName ∈ u.disallowedCommands
  deniedCategory := u.disallowedCategories &&& cmdFlags ≠ 0
  allowedName := cmdName ∈ u.allowedCommands
  allowedCategory := u.allowedCategories &&& cmdFlags ≠ 0
  all := u.allCommands

open User

variable {cmdName : Bytes} {cmdFlags : UInt64} {u : User}

@[simp] lemma User.standing_deniedName :
    (u.standing cmdName cmdFlags).deniedName = true ↔ cmdName ∈ u.disallowedCommands := decide_eq_true_iff

@[simp] lemma User.standing_deniedCategory :
    (u.standing cmdName cmdFlags).deniedCategory = true ↔ u.disallowedCategories &&& cmdFlags ≠ 0 := decide_eq_true_iff

@[simp] lemma User.standing_allowedName :
    (u.standing cmdName cmdFlags).allowedName = true ↔ cmdName ∈ u.allowedCommands := decide_eq_true_iff

@[simp] lemma User.standing_allowedCategory :
    (u.standing cmdName cmdFlags).allowedCategory = true ↔ u.allowedCategories &&& cmdFlags ≠ 0 := decide_eq_true_iff

@[simp] lemma User.standing_all : (u.standing cmdName cmdFlags).all = u.allCommands := rfl

lemma User.canExecute_eq : u.canExecute cmdName cmdFlags = (u.enabled && (u.standing cmdName cmdFlags).allowed) := by
  unfold canExecute Standing.allowed standing
  split_ifs <;> simp_all

/-! ## A rule, seen from a command -/

/-- How a rule bears on a command. -/
inductive Bearing where
  | reset
  | all (allow : Bool)
  | name (allow : Bool)
  | category (allow : Bool)
  deriving DecidableEq

def Bearing.allows : Bearing → Bool
  | .reset => false
  | .all allow | .name allow | .category allow => allow

variable (s : Standing)

def Bearing.apply : Bearing → Standing
  | .reset => .none
  | .all true => { s with all := true, deniedName := false, deniedCategory := false }
  | .all false => { s with all := false, allowedName := false, allowedCategory := false }
  | .name true => { s with allowedName := true, deniedName := false }
  | .name false => { s with deniedName := true, allowedName := false }
  | .category true => { s with allowedCategory := true }
  | .category false => { s with deniedCategory := true }

/-- The rule concerns the command: by name, by one of its categories, by `@all` or by `reset`. -/
def Rule.bearing (cmdName : Bytes) (cmdFlags : UInt64) : Rule → Option Bearing
  | .reset => some .reset
  | .all allow => some (.all allow)
  | .category allow cat => if cat &&& cmdFlags ≠ 0 then some (.category allow) else none
  | .command allow cmd => if cmd = cmdName then some (.name allow) else none
  | _ => none

def bearing (cmdName : Bytes) (cmdFlags : UInt64) (rule : Bytes) : Option Bearing :=
  (parseRule (trimSpace rule)).bind (Rule.bearing cmdName cmdFlags)

lemma and_or_ne_zero (a b f : UInt64) : (a ||| b) &&& f ≠ 0 ↔ a &&& f ≠ 0 ∨ b &&& f ≠ 0 := by
  have hdist : (a ||| b) &&& f = (a &&& f) ||| (b &&& f) := by
    rw [← UInt64.toBitVec_inj]
    ext i
    simp [Bool.and_or_distrib_right]
  rw [hdist, ne_eq, UInt64.or_eq_zero_iff, not_and_or]

variable {hashPassword : Bytes → Bytes}

lemma standing_apply (r : Rule) : (u.apply hashPassword r).standing cmdName cmdFlags =
      ((r.bearing cmdName cmdFlags).map (Bearing.apply (u.standing cmdName cmdFlags))).getD
        (u.standing cmdName cmdFlags) := by
  cases r with
  | all allow => cases allow <;> ext1 <;> rw [Bool.eq_iff_iff] <;> simp [apply, Rule.bearing, Bearing.apply]
  | category allow cat =>
    by_cases hcat : cat &&& cmdFlags = 0
    · rw [Rule.bearing, if_neg (not_not.2 hcat)]
      cases allow <;> ext1 <;> rw [Bool.eq_iff_iff] <;> simp [apply, and_or_ne_zero, hcat]
    · rw [Rule.bearing, if_pos hcat]
      cases allow <;> ext1 <;> rw [Bool.eq_iff_iff] <;> simp [apply, Bearing.apply, and_or_ne_zero, hcat]
  | command allow cmd =>
    by_cases hcmd : cmd = cmdName
    · subst hcmd
      rw [Rule.bearing, if_pos rfl]
      cases allow <;> ext1 <;> rw [Bool.eq_iff_iff] <;> simp [apply, Bearing.apply]
    · rw [Rule.bearing, if_neg hcmd]
      cases allow <;> ext1 <;> rw [Bool.eq_iff_iff] <;> simp [apply, Ne.symm hcmd]
  | reset => ext1 <;> rw [Bool.eq_iff_iff] <;> simp [apply, newUser, Rule.bearing, Bearing.apply, Standing.none]
  | _ => rfl

lemma standing_applyRule (rule : Bytes) : (u.applyRule hashPassword rule).standing cmdName cmdFlags =
      ((bearing cmdName cmdFlags rule).map (Bearing.apply (u.standing cmdName cmdFlags))).getD
        (u.standing cmdName cmdFlags) := by
  unfold applyRule bearing
  cases parseRule (trimSpace rule) with
  | none => rfl
  | some r => exact standing_apply r

/-! ## Rule after rule -/

/-- What a rule makes of a denial of the name. -/
def Bearing.nameDenial : Bearing → Option Bool
  | .reset | .all true | .name true => some false
  | .name false => some true
  | _ => none

/-- What a rule makes of a denial of a category: no rule about a name or a category lifts it. -/
def Bearing.categoryDenial : Bearing → Option Bool
  | .reset | .all true => some false
  | .category false => some true
  | _ => none

section

variable (cmdName : Bytes) (cmdFlags : UInt64) (rules : List Bytes)

/-- The name was denied, and neither it nor everything has been allowed since. -/
def nameDenied : Bool := (lastOf (fun rule => (bearing cmdName cmdFlags rule).bind Bearing.nameDenial) rules).getD false

/-- A category was denied, and not everything has been allowed since. -/
def categoryDenied : Bool :=
  (lastOf (fun rule => (bearing cmdName cmdFlags rule).bind Bearing.categoryDenial) rules).getD false

/-- The last rule that concerns the command allows its name while a category stays denied, or a category while
the name or a category stays denied. -/
def outweighed : Bool :=
  match lastOf (bearing cmdName cmdFlags) rules with
  | some (.name true) => categoryDenied cmdName cmdFlags rules
  | some (.category true) => nameDenied cmdName cmdFlags rules || categoryDenied cmdName cmdFlags rules
  | _ => false

/-- What a rule switches the user to. -/
def switch (rule : Bytes) : Option Bool :=
  match parseRule (trimSpace rule) with
  | some .on => some true
  | some .off | some .reset => some false
  | _ => none

/-- The user is left switched on. -/
def switchedOn : Bool := (lastOf switch rules).getD false

def ruled (hashPassword : Bytes → Bytes) (name : Bytes) : User :=
  rules.foldl (User.applyRule hashPassword) (User.newUser name false)

end

variable {name : Bytes} {rules : List Bytes}

lemma enabled_ruled : (ruled rules hashPassword name).enabled = switchedOn rules := by
  refine foldl_lastOf (fun u rule => ?_) (newUser name false) rules
  unfold applyRule switch
  cases parseRule (trimSpace rule) with
  | none => rfl
  | some r =>
    cases r with
    | all allow | category allow _ | command allow _ => cases allow <;> rfl
    | _ => rfl

lemma standing_newUser (name : Bytes) : (newUser name false).standing cmdName cmdFlags = .none := by
  ext1 <;> rw [Bool.eq_iff_iff] <;> simp [newUser, Standing.none]

lemma denial_ruled {p : Standing → Bool} {f : Bearing → Option Bool} (hp : p .none = false)
    (hf : ∀ s b, p (Bearing.apply s b) = (f b).getD (p s)) :
    p ((ruled rules hashPassword name).standing cmdName cmdFlags) =
      (lastOf (fun rule => (bearing cmdName cmdFlags rule).bind f) rules).getD false := by
  rw [← hp, ← standing_newUser name]
  refine foldl_lastOf (p := fun u : User => p (u.standing cmdName cmdFlags)) (fun u rule => ?_) _ rules
  rw [standing_applyRule]
  cases bearing cmdName cmdFlags rule with
  | none => rfl
  | some b => exact hf _ b

lemma deniedName_ruled :
    ((ruled rules hashPassword name).standing cmdName cmdFlags).deniedName = nameDenied cmdName cmdFlags rules := by
  refine denial_ruled rfl fun s b => ?_
  rcases b with _ | allow | allow | allow
  · rfl
  all_goals cases allow <;> rfl

lemma deniedCategory_ruled : ((ruled rules hashPassword name).standing cmdName cmdFlags).deniedCategory =
      categoryDenied cmdName cmdFlags rules := by
  refine denial_ruled rfl fun s b => ?_
  rcases b with _ | allow | allow | allow
  · rfl
  all_goals cases allow <;> rfl

/-- A rule that allows is outweighed by what is denied. -/
def Bearing.outweighedIn : Bearing → Bool
  | .name true => s.deniedCategory
  | .category true => s.deniedName || s.deniedCategory
  | _ => false

lemma allowed_apply (b : Bearing) : (b.apply s).allowed = (b.allows && !b.outweighedIn (b.apply s)) := by
  rcases b with _ | allow | allow | allow
  · rfl
  all_goals cases allow <;> simp [Bearing.apply, Standing.allowed, Bearing.allows, Bearing.outweighedIn]

lemma allowed_ruled : ((ruled rules hashPassword name).standing cmdName cmdFlags).allowed =
      (lastOf (bearing cmdName cmdFlags) rules).any fun b =>
        b.allows && !b.outweighedIn ((ruled rules hashPassword name).standing cmdName cmdFlags) := by
  induction rules using List.reverseRecOn with
  | nil =>
    rw [ruled, List.foldl_nil, standing_newUser]
    rfl
  | append_singleton rules rule ih =>
    rw [ruled, List.foldl_concat, standing_applyRule, lastOf_concat]
    cases bearing cmdName cmdFlags rule with
    | none => exact ih
    | some b => exact allowed_apply _ b

lemma outweighed_eq (hashPassword : Bytes → Bytes) (name : Bytes) :
    outweighed cmdName cmdFlags rules = (lastOf (bearing cmdName cmdFlags) rules).any
      (Bearing.outweighedIn ((ruled rules hashPassword name).standing cmdName cmdFlags)) := by
  unfold outweighed
  rw [← deniedName_ruled, ← deniedCategory_ruled]
  rcases lastOf (bearing cmdName cmdFlags) rules with _ | (_ | allow | allow | allow)
  · rfl
  · rfl
  all_goals cases allow <;> rfl

/-- A user made by rules may run a command as the last rule that concerns it says, exactly if that rule is not
one that allows while an earlier denial stands that outweighs it (or the user is switched off anyway). -/
theorem last_rule_decides_iff (hashPassword : Bytes → Bytes) (name : Bytes) (rules : List Bytes) (cmdName : Bytes)
    (cmdFlags : UInt64) : ((ruled rules hashPassword name).canExecute cmdName cmdFlags = true ↔
      (ruled rules hashPassword name).enabled = true ∧
        ∃ b, lastOf (bearing cmdName cmdFlags) rules = some b ∧ b.allows = true) ↔
    ¬ (switchedOn rules = true ∧ outweighed cmdName cmdFlags rules = true) := by
  rw [User.canExecute_eq, allowed_ruled, enabled_ruled, outweighed_eq hashPassword name]
  generalize (ruled rules hashPassword name).standing cmdName cmdFlags = s
  cases switchedOn rules with
  | false => simp
  | true =>
    rcases lastOf (bearing cmdName cmdFlags) rules with _ | (_ | allow | allow | allow)
    · simp
    · simp [Bearing.allows, Bearing.outweighedIn]
    all_goals cases allow <;> simp [Bearing.allows, Bearing.outweighedIn]

/-- Categories and names that were denied and then allowed stay denied. -/
theorem denied_category_stays_denied :
    let rules := [ascii "on", ascii "-@write", ascii "+@write", ascii "+set"]
    lastOf (bearing (ascii "set") catWrite) rules = some (.name true) ∧
      (ruled rules id (ascii "u")).enabled = true ∧
      (ruled rules id (ascii "u")).canExecute (ascii "set") catWrite = false := by
  decide

end Gopherdis.Acl
