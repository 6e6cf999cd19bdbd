import DiceLaw.Settings.Store
import DiceLaw.Text.Uppercase

/-!
# The level of log output

## Main definitions

* `LogLevelError`: why there is no level
* `levelText`: a value as a level, in upper case
* `logLevel`: the level that is asked for, or that of the settings
-/

namespace DiceLaw

/-- The causes for which there is no level. -/
inductive LogLevelError where
  | settings (e : SettingsError)
  /-- The level is not a text. -/
  | notText
  deriving DecidableEq, Repr

/-- A value as a level, in upper case. -/
def levelText : Value → Except LogLevelError String
  | .text level => .ok (Text.uppercase level)
  | _ => .error .notText

/-- The level that is asked for; null asks for that of the settings. -/
def logLevel : Value → WithSettings LogLevelError String
  | .null => do
    let fields ← WithSettings.get .settings
    -- the defaults have this key, and no key is taken out of settings: it is there
    liftM (levelText ((Keyed.get? "log_level" fields).getD .null))
  | level => liftM (levelText level)

end DiceLaw
