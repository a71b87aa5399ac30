import OpenstackPlatform.Library.Checks
import OpenstackPlatform.Validation

/-!
# Job texts as the helper reads them

The helper is given a deployment's Nomad job as one HCL text.  `controller/nomad_jobs.py` finds in
it the ID of the job, its placement, the identity of the candidate, the route marker and the route
priority.  The
patterns are searched at every position of the text; none of their matches can overlap another, so
the positions are independent of each other.

* `Error`: what the helper's actions raise.
* `nomadJobId`, `nomadPlacementId`, `nomadRoutePriority`, `nomadRouteMarker`,
  `nomadCandidateIdentity`.
-/

namespace OpenstackPlatform
namespace Helper

open Validation

/-- The exceptions of the helper's actions. -/
inductive Error where
  | helperAction (code message : String)
  | validation (message : String)
  | commandFailure
  | nomad (message : String)
  | casConflict
  deriving DecidableEq, Repr

/-- `if not condition: raise error` -/
def require (condition : Bool) (error : Error) : Except Error Unit :=
  if condition then .ok () else .error error

@[simp] theorem require_eq_ok {c : Bool} {e : Error} {u : Unit} :
    require c e = .ok u ↔ c = true := by
  cases c <;> simp [require]

/-! ## Checks -/

/-- `slug` -/
def checkSlug (value : String) : Except Error Unit :=
  require (isSlug value) (.validation (slugMessage value))

/-- `uuid` -/
def checkUuid (field value : String) : Except Error Unit :=
  require (isUuid value) (.validation s!"{field} must be a canonical UUID")

/-- `bounded_text` -/
def boundedText (field value : String) (maximum : Nat) : Except Error Unit := do
  require (!value.toList.contains '\x00') (.validation s!"{field} must be text without NUL bytes")
  require (value.utf8ByteSize ≤ maximum)
    (.validation s!"{field} exceeds its {maximum}-byte limit")

/-- `oci_digest_pin` -/
def checkOciDigestPin (field value : String) : Except Error Unit :=
  require (isOciDigestPin value) (.validation s!"{field} must be an image@sha256 digest pin")

/-- `sha256_hex` -/
def checkSha256Hex (field value : String) : Except Error Unit :=
  require (isSha256Hex value)
    (.validation s!"{field} must be 64 lowercase hexadecimal characters")

/-- The ID of an application's candidate job. -/
def candidateId (applicationSlug : String) : String := applicationSlug ++ "-candidate"

/-- The two IDs a job of an application can have. -/
def isJobId (applicationSlug jobId : String) : Bool :=
  jobId == applicationSlug || jobId == candidateId applicationSlug

theorem isJobId_iff {applicationSlug jobId : String} :
    isJobId applicationSlug jobId = true ↔
      jobId = applicationSlug ∨ jobId = candidateId applicationSlug := by
  simp [isJobId]

/-! ## Texts -/

/-- What follows a literal at the start of a text. -/
def afterLiteral (literal : String) (text : List Char) : Option (List Char) :=
  if literal.toList.isPrefixOf text then some (text.drop literal.toList.length) else none

/-- `piece in text` -/
def mentions (piece text : String) : Bool :=
  text.toList.tails.any fun rest => piece.toList.isPrefixOf rest

/-- The longest run at the start of a text of characters other than a quote and a line end. -/
def unquoted (text : List Char) : List Char := text.takeWhile fun c => c != '"' && c != '\n'

/-- The characters `[0-9a-f-]`. -/
def isIdChar (c : Char) : Bool := isHexLower c || c == '-'

/-- `nomad_job_id` -/
def nomadJobId (nomadJob applicationSlug : String) : Except Error String := do
  boundedText "Nomad job" nomadJob 262144
  checkSlug applicationSlug
  match afterLiteral "job \"" nomadJob.toList with
  | some rest =>
    let id := String.ofList (unquoted rest)
    require ((afterLiteral "\" \x7b\n" (rest.drop (unquoted rest).length)).isSome &&
        isJobId applicationSlug id)
      (.validation "Nomad job ID is not the stable or candidate application job")
    return id
  | none =>
    .error (.validation "Nomad job ID is not the stable or candidate application job")

/-- The value of a run of decimal digits. -/
def decimal (digits : List Char) : Nat :=
  digits.foldl (fun n c => 10 * n + (c.toNat - '0'.toNat)) 0

/-- The route priority at the start of a text. -/
def priorityAt (text : List Char) : Option Nat :=
  match afterLiteral ".priority=" text with
  | some rest =>
    let digits := rest.takeWhile Char.isDigit
    if !digits.isEmpty && (afterLiteral "\"," (rest.drop digits.length)).isSome then
      some (decimal digits)
    else none
  | none => none

/-- `nomad_route_priority` -/
def nomadRoutePriority (nomadJob : String) : Except Error Nat := do
  boundedText "Nomad job" nomadJob 262144
  return (nomadJob.toList.tails.filterMap priorityAt).foldl max 0

/-- The placement at the start of a text. -/
def placementAt (text : List Char) : Option String :=
  match afterLiteral
      "    attribute = \"$\x7bmeta.application_id\x7d\"\n    operator  = \"=\"\n    value     = \""
      text with
  | some rest =>
    if (rest.take 36).length == 36 && (rest.take 36).all isIdChar &&
        (afterLiteral "\"" (rest.drop 36)).isSome then
      some (String.ofList (rest.take 36))
    else none
  | none => none

/-- `nomad_placement_id` -/
def nomadPlacementId (nomadJob : String) : Except Error String := do
  boundedText "Nomad job" nomadJob 262144
  match nomadJob.toList.tails.filterMap placementAt with
  | [placement] =>
    checkUuid "Nomad placement ID" placement
    return placement
  | _ => .error (.validation "Nomad job placement identity was missing or ambiguous")

/-- The route marker at the start of a text. -/
def routeMarkerAt (text : List Char) : Option String :=
  match afterLiteral "    platform_route_marker = \"" text with
  | some rest =>
    if (rest.take 36).length == 36 && (rest.take 36).all isIdChar &&
        (afterLiteral "\"\n" (rest.drop 36)).isSome then
      some (String.ofList (rest.take 36))
    else none
  | none => none

/-- `nomad_route_marker` -/
def nomadRouteMarker (nomadJob : String) : Except Error String := do
  boundedText "Nomad job" nomadJob 262144
  match nomadJob.toList.tails.filterMap routeMarkerAt with
  | [marker] =>
    checkUuid "Nomad route marker" marker
    return marker
  | _ => .error (.validation "Nomad route marker was missing or ambiguous")

/-- One quoted setting of the marker block, and what follows its line. -/
def settingAt (key : String) (valid : String → Bool) (text : List Char) :
    Option (String × List Char) := do
  let rest ← afterLiteral ("    " ++ key) text
  let rest ← afterLiteral "=" (rest.dropWhile isSpace)
  let rest ← afterLiteral "\"" (rest.dropWhile isSpace)
  let value := String.ofList (unquoted rest)
  if valid value then
    let rest ← afterLiteral "\"\n" (rest.drop (unquoted rest).length)
    return (value, rest)
  else none

/-- `[^"\n]+@sha256:[0-9a-f]{64}` -/
def isMarkedImage (value : String) : Bool :=
  let chars := value.toList
  let digest := chars.drop (chars.length - 72)
  72 < chars.length && "@sha256:".toList.isPrefixOf digest && (digest.drop 8).all isHexLower

/-- The optional route marker line of the marker block: what follows it. -/
def afterRouteMarker (text : List Char) : List Char :=
  ((settingAt "platform_route_marker" (fun v => v.length == 36 && v.toList.all isIdChar) text).map
    Prod.snd).getD text

/-- `_JOB_MARKER_BLOCK` at the start of a text: the job's hash, its image and what follows. -/
def markerAt (text : List Char) : Option (String × String × List Char) := do
  let rest ← afterLiteral "  meta \x7b\n" text
  let (hash, rest) ← settingAt "platform_candidate_job_sha256" isSha256Hex rest
  let (image, rest) ← settingAt "platform_candidate_image" isMarkedImage rest
  let (_, rest) ← settingAt "platform_source_commit" isCommit (afterRouteMarker rest)
  let (_, rest) ← settingAt "platform_recipe_sha256" isSha256Hex rest
  let rest ← afterLiteral "  \x7d\n\n" rest
  return (hash, image, rest)

/-- Every marker of a text, with the text around it; `before` is what was passed, last character
first. -/
def markersFrom (before : List Char) : List Char → List (String × String × String)
  | [] => []
  | c :: text =>
    match markerAt (c :: text) with
    | some (hash, image, rest) =>
      (hash, image, String.ofList (before.reverse ++ rest)) :: markersFrom (c :: before) text
    | none => markersFrom (c :: before) text

/-- `nomad_candidate_identity`, with `hashlib.sha256(...).hexdigest()` as a parameter. -/
def nomadCandidateIdentity (sha256 : String → String) (nomadJob : String) :
    Except Error (String × String) := do
  boundedText "Nomad job" nomadJob 262144
  match markersFrom [] nomadJob.toList with
  | [(hash, image, unmarked)] =>
    require (sha256 unmarked == hash)
      (.validation "Nomad job candidate identity does not match the exact job")
    checkOciDigestPin "Nomad candidate image" image
    return (hash, image)
  | _ =>
    .error (.validation "Nomad job must contain exactly one platform candidate marker")

end Helper
end OpenstackPlatform
