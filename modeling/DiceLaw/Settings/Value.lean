import DiceLaw.Keyed
import DiceLaw.Number.Binary64

/-!
# Values of settings

Settings are plain data: what a settings file may hold. The keys of a mapping are texts.

## Main definitions

* `Value`: the values
* `Fields`: values under keys
* `Value.isVoid`: values that say nothing
* `Fields.overlay`: fields laid over fields

## Main results

* `Fields.overlay_nil`: laying nothing over fields changes nothing
-/

namespace DiceLaw

/-- A value of the settings. -/
inductive Value where
  | null
  | bool (b : Bool)
  | int (n : Int)
  | float (x : Binary64)
  | text (s : String)
  | list (items : List Value)
  | mapping (fields : List (String × Value))
  deriving Inhabited

/-- Values under keys. -/
abbrev Fields := Keyed Value

/-- Null, false, zero, and whatever is empty say nothing. -/
def Value.isVoid : Value → Bool
  | .null => true
  | .bool b => !b
  | .int n => n = 0
  | .float x => x.toRat? = some 0
  | .text s => s = ""
  | .list items => items.isEmpty
  | .mapping fields => fields.isEmpty

mutual

/-- A value laid over one that may be there. Of two mappings the fields are laid over one another;
anything else replaces what was there. -/
def Value.overlay : Value → Option Value → Value
  | .mapping upper, some (.mapping base) => .mapping (Fields.overlay upper base)
  | .mapping upper, _ => .mapping upper
  | value, _ => value

/-- Fields laid over fields, key by key. -/
def Fields.overlay : List (String × Value) → Fields → Fields
  | [], base => base
  | (key, value) :: rest, base =>
    Fields.overlay rest (Keyed.put key (value.overlay (Keyed.get? key base)) base)

end

@[simp] theorem Fields.overlay_nil (base : Fields) : Fields.overlay [] base = base := by
  simp [Fields.overlay]

end DiceLaw
