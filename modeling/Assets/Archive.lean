import Assets.Blob
import Assets.Digest.Sha256

/-!
# Archives

An archive is a file set with its canonical blob and the digest of that blob.  Only the blob and
the digest are canonical; the files keep the order in which they were produced.
-/

namespace Assets

/-- A file set with its canonical blob and digest. -/
structure Archive where
  files : FileSet
  content : String
  hash : String
  deriving DecidableEq, Repr

namespace Archive

def ofFiles (files : FileSet) : Archive :=
  let content := Blob.encode files
  ⟨files, content, digest content⟩

/-- Reads a blob and seals the files found in it. -/
def ofBlob (blob : String) : Archive := ofFiles (Blob.decode blob)

end Archive

end Assets
