import DiceLaw.Chart.Basic
import DiceLaw.Settings.Store

/-!
# Rendering a chart

The settings say in which format, and how large, a chart is rendered.

## Main definitions

* `RenderingError`: why a chart cannot be rendered
* `Rendering`: the format and the size
* `Rendering.ofOptions`: the format and the size that options give
* `Rendering.ofChart`: those that the settings give for a chart
-/

namespace DiceLaw

/-- The causes for which a chart cannot be rendered. -/
inductive RenderingError where
  | settings (e : SettingsError)
  /-- There is no chart. -/
  | chart (e : ChartError)
  /-- The options are not a mapping. -/
  | notMapping
  /-- An option is missing. -/
  | missing (key : String)
  deriving DecidableEq, Repr

/-- The format and the size of a rendered chart. -/
structure Rendering where
  format : Value
  width : Value
  height : Value

namespace Rendering

/-- An option by its key. -/
def option (options : Value) (key : String) : Except RenderingError Value :=
  match options with
  | .mapping fields =>
    match Keyed.get? key fields with
    | some value => .ok value
    | none => .error (.missing key)
  | _ => .error .notMapping

/-- The format and the size that options give. A format that is asked for, unless it says nothing,
comes before that of the options. -/
def ofOptions (options format : Value) : Except RenderingError Rendering := do
  let format ← if format.isVoid then option options "format" else .ok format
  let width ← option options "width"
  let height ← option options "height"
  return { format := format, width := width, height := height }

/-- The rendering of a chart under the settings. The settings are looked at first, then the chart,
and only then the options. -/
def ofChart (chart : Except ChartError Chart) (format : Value) :
    WithSettings RenderingError Rendering := do
  let fields ← WithSettings.get .settings
  let options ← match Keyed.get? "plot" fields with
    | some options => pure options
    | none => throw (.missing "plot")
  match chart with
  | .ok _ => liftM (ofOptions options format)
  | .error e => throw (.chart e)

end Rendering

end DiceLaw
