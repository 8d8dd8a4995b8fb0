import Assets.Css.Module
import Assets.Esm.Rewrite
import Assets.Json.Module

/-!
# The standard plugins

Stylesheets and documents become modules first; then the imports of every module are rewritten.
-/

namespace Assets

structure PluginOptions where
  esm : Esm.Options := {}
  deriving DecidableEq, Repr, Inhabited

/-- The standard plugins in the order in which they run. -/
def standardPlugins (options : PluginOptions) : List Plugin :=
  [Css.plugin, Json.plugin, Esm.plugin options.esm]

end Assets
