import DiceLaw.Formula.Reading
import DiceLaw.Settings.Store

/-!
# Drafts

A draft describes a formula whose parts have not been checked yet, and which may leave the limit of
an exploding roll to the settings.

## Main definitions

* `Draft`: the drafts
* `DraftError`, `DraftError.message?`: why a draft makes no formula, and what is said about it
* `limitOf`: the limit that a value gives
* `Draft.build`: the formula of a draft
-/

namespace DiceLaw

/-- The description of a formula. -/
inductive Draft where
  | written (text : String)
  | constant (value : Int)
  | die (lo hi : Int)
  | join (joint : Joint) (parts : List Draft)
  | plus (a b : Draft)
  | times (a b : Draft)
  | absolute (body : Draft)
  /-- The limit of an exploding roll may be any value; null leaves it to the settings. -/
  | explode (body : Draft) (threshold : Option Int) (limit : Value)
  deriving Inhabited

/-- The causes for which a draft makes no formula. -/
inductive DraftError where
  | building (e : BuildError)
  | settings (e : SettingsError)
  /-- A limit below zero. -/
  | negativeLimit
  /-- A limit that cannot be compared with numbers. -/
  | limitNotNumber
  /-- A limit without end. -/
  | limitEndless
  /-- A limit that is not a number, though it is written as one. -/
  | limitUndefined
  deriving DecidableEq, Repr

/-- What is said about a cause. Only the sign of a limit is asked for; that a limit is no number, or
without end, is noticed by comparing it and cutting it off, and nothing is said about it here. -/
def DraftError.message? : DraftError → Option String
  | .building e => some e.message
  | .settings e => e.message?
  | .negativeLimit => some "max_iterations must not be negative"
  | .limitNotNumber | .limitEndless | .limitUndefined => none

/-- The limit that a value gives. It must not be negative, and what follows the point is dropped
only after that. -/
def limitOf : Value → Except DraftError Nat
  | .bool b => .ok b.toNat
  | .int n => if n < 0 then .error .negativeLimit else .ok n.toNat
  | .float x =>
    match x.toRat? with
    | some q => if q < 0 then .error .negativeLimit else .ok (q.num.tdiv q.den).toNat
    | none =>
      if x = .notANumber then .error .limitUndefined
      else if x = .infinity true then .error .negativeLimit
      else .error .limitEndless
  | .null | .text _ | .list _ | .mapping _ => .error .limitNotNumber

namespace Draft

/-- The value of the limit of an exploding roll: the one given, or that of the settings. -/
def limitValue : Value → WithSettings DraftError Value
  | .null => do
    let fields ← WithSettings.get .settings
    -- the defaults have this key, and no key is taken out of settings: it is there
    return (Keyed.get? "explode_max_iterations" fields).getD .null
  | limit => return limit

/-- What was built from parts, or the cause why it was not. -/
def built {α : Type} (result : Except BuildError α) : WithSettings DraftError α :=
  liftM (result.mapError DraftError.building)

mutual

/-- The formula of a draft. Parts are built from left to right, before what they are part of. -/
def build : Draft → WithSettings DraftError Formula
  | .written text => built (Formula.ofText text)
  | .constant value => return .constant value
  | .die lo hi => built (Formula.die? lo hi)
  | .join joint parts => do
    let fs ← buildAll parts
    built (Formula.join? joint fs)
  | .plus a b => do
    let f ← build a
    let g ← build b
    return f + g
  | .times a b => do
    let f ← build a
    let g ← build b
    return f * g
  | .absolute body => return .absolute (← build body)
  | .explode body threshold limit => do
    let f ← build body
    let n ← limitValue limit
    let n ← liftM (limitOf n)
    return .explode f threshold n

/-- The formulas of several drafts. -/
def buildAll : List Draft → WithSettings DraftError (List Formula)
  | [] => return []
  | draft :: rest => do
    let f ← build draft
    let fs ← buildAll rest
    return f :: fs

end

end Draft

end DiceLaw
