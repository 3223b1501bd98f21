import RecordProjection.Digest
import RecordProjection.Json.Printer

/-!
# Fingerprints

The fingerprint of a value is the digest of its canonical form in UTF-8, so values that differ
only in the order of their members have the same one.
-/
namespace RecordProjection.Value

/-- The fingerprint of a value. -/
def fingerprint (v : Value) : String :=
  "sha256:" ++ String.ofList (Digest.sha256 v.canonical.toUTF8.toList)

end RecordProjection.Value
