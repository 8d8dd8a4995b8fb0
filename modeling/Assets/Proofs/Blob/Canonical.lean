import Assets.Proofs.Blob.RoundTrip
import Assets.Proofs.FileSet.Names

/-!
# Canonical blobs

Every text can be read as a blob, and what is read from it has a canonical blob.  Here it is shown
that this is a normal form: of a text under reading and sealing, and of a file set under the order
of its files.

* `ofBlob_encode`: from the canonical blob of storable files come the same files in canonical
  order, under the same blob and the same digest.
* `canonical_content`: what is read from a text and sealed again stays as it is, and the texts
  that stay as they are themselves are the canonical blobs of accepted file sets.
* `encode_eq_encode_iff_perm`: two accepted sets have one canonical blob if and only if they hold
  the same files.

Nothing is asked of the text that is read.  Records may be malformed, runs of NULs may be of any
length and names may repeat: what is read is storable in any case (`storable_of_mem_decode`), and
files of one name keep their order when they are sorted a second time.
-/

namespace Assets.Blob

/-- The canonical blob of a file set that is accepted. -/
def Canonical (blob : String) : Prop := ∃ files, validate files = .ok () ∧ blob = encode files

theorem storable_of_mem_sorted {files : FileSet} (h : ∀ file ∈ files, Storable file) :
    ∀ file ∈ files.sorted, Storable file :=
  fun file hfile => h file ((perm_sorted files).mem_iff.mp hfile)

/-- What the canonical blob of storable files holds. -/
theorem ofBlob_encode {files : FileSet} (h : ∀ file ∈ files, Storable file) :
    Archive.ofBlob (encode files) = ⟨files.sorted, encode files, digest (encode files)⟩ := by
  have hdecode : decode (encode files) = files.sorted :=
    decode_encodeUnsorted (storable_of_mem_sorted h)
  rw [Archive.ofBlob, hdecode, Archive.ofFiles, encode_sorted]

/-! ## Canonical texts -/

/-- Reading a text makes it canonical. -/
theorem canonical_ofBlob (blob : String) : Canonical (Archive.ofBlob blob).content :=
  ⟨decode blob, validate_eq_ok_iff.mpr fun _ => storable_of_mem_decode, rfl⟩

theorem content_eq_of_canonical {blob : String} (h : Canonical blob) :
    (Archive.ofBlob blob).content = blob := by
  obtain ⟨files, hvalid, rfl⟩ := h
  rw [ofBlob_encode (validate_eq_ok_iff.mp hvalid)]

/-- **Canonical texts.**  Reading the canonical blob of a text gives the files of the text in
canonical order, and the same blob and digest again.  A text is left as it is exactly if it is the
canonical blob of an accepted file set. -/
theorem canonical_content (blob : String) :
    let archive := Archive.ofBlob blob
    let again := Archive.ofBlob archive.content
    again.files = archive.files.sorted ∧ again.content = archive.content ∧
      again.hash = archive.hash ∧ (archive.content = blob ↔ Canonical blob) := by
  intro archive again
  have hagain : again = ⟨archive.files.sorted, archive.content, archive.hash⟩ :=
    ofBlob_encode fun _ => storable_of_mem_decode
  rw [hagain]
  refine ⟨rfl, rfl, rfl, fun h => ?_, content_eq_of_canonical⟩
  rw [← h]
  exact canonical_ofBlob blob

/-! ## Canonical blobs of file sets -/

/-- Storable files with one canonical blob are the same files. -/
theorem perm_of_encode_eq {files other : FileSet} (hfiles : ∀ file ∈ files, Storable file)
    (hother : ∀ file ∈ other, Storable file) (h : encode files = encode other) :
    other.Perm files := by
  have hsorted : files.sorted = other.sorted := by
    have harchive := ofBlob_encode hfiles
    rw [h, ofBlob_encode hother] at harchive
    exact (congrArg Archive.files harchive).symm
  calc other.Perm other.sorted := (perm_sorted other).symm
    _ = files.sorted := hsorted.symm
    List.Perm _ files := perm_sorted files

/-- **Canonical blobs of file sets.**  Accepted file sets have one canonical blob if and only if
one of them is the other in another order.  That the files of a set differ in their names is
needed for one of the sets only. -/
theorem encode_eq_encode_iff_perm {files other : FileSet} (hfiles : validate files = .ok ())
    (hother : validate other = .ok ()) (hnames : files.names.Nodup) :
    encode files = encode other ↔ other.Perm files := by
  rw [validate_eq_ok_iff] at hfiles hother
  exact ⟨perm_of_encode_eq hfiles hother, fun hperm => encode_eq_of_perm hperm.symm hnames⟩

/-- Two files have one blob in both orders, and another one with the contents exchanged. -/
theorem encode_eq_encode_iff_perm_pair :
    let files : FileSet := [⟨"b", "2"⟩, ⟨"a", "1"⟩]
    let exchanged : FileSet := [⟨"b", "1"⟩, ⟨"a", "2"⟩]
    validate files = .ok () ∧ validate files.reverse = .ok () ∧ validate exchanged = .ok () ∧
      files.names.Nodup ∧ encode files = encode files.reverse ∧
        encode files ≠ encode exchanged := by
  intro files exchanged
  have hfiles : validate files = .ok () := rfl
  have hreverse : validate files.reverse = .ok () := rfl
  have hexchanged : validate exchanged = .ok () := rfl
  have hnames : files.names.Nodup := by decide
  refine ⟨hfiles, hreverse, hexchanged, hnames, ?_, ?_⟩
  · exact (encode_eq_encode_iff_perm hfiles hreverse hnames).mpr (List.reverse_perm files)
  · rw [ne_eq, encode_eq_encode_iff_perm hfiles hexchanged hnames]
    decide

end Assets.Blob
