import Assets.Disk.Operations
import Assets.Plugin.Basic
import Assets.Text.Quoted

/-!
# Loading from a directory

The content of an id is the text of the file that the id leads to below a directory.  Ids that
would lead out of the directory are refused before anything is read.
-/

namespace Assets.Loader

/-- Loads the files below a directory.  An id without a file has no content. -/
def ofDirectory (disk : Disk) (root : Path) : Loader := fun id =>
  if (Path.ofString id).staysBelow then
    match disk.readText (root.join (Path.ofString id)) with
    | .ok content => .value (some content)
    | .error .notFound => .value none
    | .error fault => .failure (.disk fault)
  else
    ⟨[.report ⟨.warn, "Refusing to load an id outside the load directory",
      [("id", Text.quoted id)]⟩], .value none⟩

end Assets.Loader
