import Assets.Log
import Assets.Text.Quoted

/-!
# Package installation

Installing a package is accepted and does nothing but leave a warning.
-/

namespace Assets

/-- What the request to install a package reports. -/
def install (name version : String) : List Diagnostic :=
  [⟨.warn, "Package installation is not implemented, nothing was installed",
    [("name", Text.quoted name), ("version", Text.quoted version)]⟩]

end Assets
