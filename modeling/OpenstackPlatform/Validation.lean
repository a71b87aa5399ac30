import Mathlib.Data.List.Basic

/-!
# The validators the journal uses

`validation.py` and the token patterns of `database.py`, as decidable checks on strings.  Each
check is the `fullmatch` of the pattern it is named after; the functions that use them raise
`ValidationError` when a check fails.
-/

namespace OpenstackPlatform
namespace Validation

/-- `[0-9a-f]` -/
def isHexLower (c : Char) : Bool := c.isDigit || ('a' ≤ c && c ≤ 'f')

/-- `[a-z0-9]` -/
def isLowerAlnum (c : Char) : Bool := c.isDigit || c.isLower

/-- The characters `\s` matches in a Python text pattern. -/
def isSpace (c : Char) : Bool :=
  let n := c.toNat
  (9 ≤ n && n ≤ 13) || (28 ≤ n && n ≤ 32) || n == 0x85 || n == 0xA0 || n == 0x1680 ||
    (0x2000 ≤ n && n ≤ 0x200A) || n == 0x2028 || n == 0x2029 || n == 0x202F || n == 0x205F ||
    n == 0x3000

/-- `str.strip` -/
def strip (text : List Char) : List Char :=
  ((text.dropWhile isSpace).reverse.dropWhile isSpace).reverse

/-- A canonical lowercase UUID: hexadecimal groups of 8, 4, 4, 4 and 12 digits. -/
def isUuid (s : String) : Bool :=
  match s.toList.splitOn '-' with
  | [a, b, c, d, e] =>
    a.length == 8 && b.length == 4 && c.length == 4 && d.length == 4 && e.length == 12 &&
      (a ++ b ++ c ++ d ++ e).all isHexLower
  | _ => false

/-- `_OPERATION_TOKEN`: `[a-z0-9][a-z0-9._-]{0,127}` -/
def isOperationToken (s : String) : Bool :=
  match s.toList with
  | [] => false
  | c :: cs =>
    isLowerAlnum c && cs.length ≤ 127 &&
      cs.all fun d => isLowerAlnum d || d == '.' || d == '_' || d == '-'

/-- `_CLEANUP_STATE`: `[a-z][a-z0-9_]{0,63}` -/
def isCleanupState (s : String) : Bool :=
  match s.toList with
  | [] => false
  | c :: cs => c.isLower && cs.length ≤ 63 && cs.all fun d => isLowerAlnum d || d == '_'

/-- `_SHA256_HEX`: `[0-9a-f]{64}` -/
def isSha256Hex (s : String) : Bool := s.length == 64 && s.toList.all isHexLower

/-- `_OCI_DIGEST`, with the length bound of `oci_digest_pin`: at least two path components
without spaces, and a lowercase SHA-256 digest. -/
def isOciDigestPin (s : String) : Bool :=
  match s.toList.splitOn '@' with
  | [name, digest] =>
    let components := name.splitOn '/'
    s.length ≤ 512 && 2 ≤ components.length &&
      (components.all fun c => !c.isEmpty && c.all fun d => !isSpace d) &&
      digest.take 7 == "sha256:".toList && isSha256Hex (String.ofList (digest.drop 7))
  | _ => false

/-- `_SLUG`, without two hyphens in a row: `[a-z][a-z0-9-]{1,38}[a-z0-9]` -/
def isSlug (s : String) : Bool :=
  match s.toList with
  | [] => false
  | c :: cs =>
    c.isLower && 2 ≤ cs.length && cs.length ≤ 39 &&
      (cs.all fun d => isLowerAlnum d || d == '-') && (cs.getLast?.any isLowerAlnum) &&
      !(cs.tails.any fun suffix => "--".toList.isPrefixOf suffix)

/-- What `slug` says of a value that it refuses: two hyphens in a row have a message of their own. -/
def slugMessage (s : String) : String :=
  match s.toList with
  | [] => "slug must be 3-40 lowercase letters, numbers, or interior hyphens"
  | c :: cs =>
    if c.isLower && 2 ≤ cs.length && cs.length ≤ 39 &&
        (cs.all fun d => isLowerAlnum d || d == '-') && cs.getLast?.any isLowerAlnum then
      "slug must not contain consecutive hyphens"
    else "slug must be 3-40 lowercase letters, numbers, or interior hyphens"

/-- `_COMMIT`: `[0-9a-f]{40}` -/
def isCommit (s : String) : Bool := s.length == 40 && s.toList.all isHexLower

/-- `_REQUESTED_REF`: one to 256 characters that are neither blanks nor controls. -/
def isRequestedRef (s : String) : Bool :=
  1 ≤ s.length && s.length ≤ 256 && s.toList.all fun c => 32 < c.toNat && c.toNat != 127

/-- `_ENV_KEY`: `[A-Z][A-Z0-9_]{0,127}` -/
def isEnvKey (s : String) : Bool :=
  match s.toList with
  | [] => false
  | c :: cs => c.isUpper && cs.length ≤ 127 && cs.all fun d => d.isUpper || d.isDigit || d == '_'

/-- The names of environment variables are words. -/
theorem isEnvKey_chars {s : String} (h : isEnvKey s = true) :
    s.toList ≠ [] ∧ ∀ c ∈ s.toList, (c.isUpper || c.isDigit || c == '_') = true := by
  rw [isEnvKey] at h
  split at h
  · cases h
  · rename_i c cs hs
    simp only [Bool.and_eq_true, List.all_eq_true] at h
    rw [hs]
    refine ⟨by simp, fun d hd => ?_⟩
    obtain rfl | hd := List.mem_cons.mp hd
    · simp [h.1.1]
    · exact h.2 d hd

/-- `str.removeprefix` -/
def removePrefix (p s : String) : String :=
  if p.toList.isPrefixOf s.toList then String.ofList (s.toList.drop p.length) else s

end Validation
end OpenstackPlatform
