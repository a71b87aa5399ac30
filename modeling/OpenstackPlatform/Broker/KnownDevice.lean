import Mathlib.Algebra.Order.Ring.Rat
import Mathlib.Data.List.DropRight
import Mathlib.Data.Nat.Digits.Lemmas
import Mathlib.Data.Rat.Floor
import Mathlib.Tactic.Linarith
import OpenstackPlatform.Library.JsonText
import OpenstackPlatform.Library.TextLines

/-!
# Known devices

`management/broker/known_device.py`: the token by which a browser is recognized.  It names an
account, a generation of the account, an expiry and an identifier of the device, and ends with a
signature of what stands before.  A sign-in of a local account issues a new token; the identifier
is kept if the browser still has a token that is valid for the account.

* `Mac.signature`, `isMac_signature`: the signature, with the hash as a parameter.
* `valid`, `deviceId`, `issue`, `read`: the functions of the module.
* `valid_signed`: for whom and when a signed token is valid.
* `read_cookies`: which of the cookies of a browser is read as its token.
* `browser_recognized`: what is known of a browser after any sign-ins, and that its token says it.

A time is a rational number; it is not rounded.
-/

namespace OpenstackPlatform
namespace Broker
namespace KnownDevice

open Library

/-! ## Signatures -/

/-- A character of the alphabet of `base64.urlsafe_b64encode`. -/
def sextet (n : ℕ) : ℕ :=
  if n < 26 then 65 + n else if n < 52 then 71 + n else if n < 62 then n - 4
  else if n = 62 then 45 else 95

/-- `base64.urlsafe_b64encode` -/
def urlsafeB64 : List ℕ → Text
  | [] => []
  | [a] => [sextet (a / 4), sextet (a % 4 * 16), 61, 61]
  | [a, b] => [sextet (a / 4), sextet (a % 4 * 16 + b / 16), sextet (b % 16 * 4), 61]
  | a :: b :: c :: rest =>
    sextet (a / 4) :: sextet (a % 4 * 16 + b / 16) :: sextet (b % 16 * 4 + c / 64) ::
      sextet (c % 64) :: urlsafeB64 rest

/-- `[A-Za-z0-9_-]` -/
def isUrlsafe (c : ℕ) : Bool :=
  (65 ≤ c && c ≤ 90) || (97 ≤ c && c ≤ 122) || (48 ≤ c && c ≤ 57) || c == 95 || c == 45

theorem isUrlsafe_sextet (n : ℕ) : isUrlsafe (sextet n) = true := by
  rw [sextet, isUrlsafe]
  grind

/-- Two bytes over a multiple of three are padded by one `=`. -/
theorem urlsafeB64_padded : ∀ (k : ℕ) (bytes : List ℕ), bytes.length = 3 * k + 2 →
    ∃ t, urlsafeB64 bytes = t ++ [61] ∧ t.length = 4 * k + 3 ∧ ∀ c ∈ t, isUrlsafe c = true
  | 0, [a, b], _ => by
    refine ⟨[sextet (a / 4), sextet (a % 4 * 16 + b / 16), sextet (b % 16 * 4)], rfl, rfl, ?_⟩
    intro c hc
    simp only [List.mem_cons, List.not_mem_nil, or_false] at hc
    obtain rfl | rfl | rfl := hc <;> exact isUrlsafe_sextet _
  | k + 1, a :: b :: c :: rest, h => by
    obtain ⟨t, ht, hlength, hsafe⟩ := urlsafeB64_padded k rest (by
      simp only [List.length_cons] at h
      omega)
    refine ⟨sextet (a / 4) :: sextet (a % 4 * 16 + b / 16) :: sextet (b % 16 * 4 + c / 64) ::
      sextet (c % 64) :: t, ?_, ?_, ?_⟩
    · rw [urlsafeB64, ht]
      rfl
    · simp only [List.length_cons]
      omega
    · intro d hd
      simp only [List.mem_cons] at hd
      obtain rfl | rfl | rfl | rfl | hd := hd
      · exact isUrlsafe_sextet _
      · exact isUrlsafe_sextet _
      · exact isUrlsafe_sextet _
      · exact isUrlsafe_sextet _
      · exact hsafe d hd
  | 0, [], h | 0, [_], h | 0, _ :: _ :: _ :: _, h => by
    simp only [List.length_cons, List.length_nil] at h
    omega
  | _ + 1, [], h | _ + 1, [_], h | _ + 1, [_, _], h => by
    simp only [List.length_cons, List.length_nil] at h
    omega

/-- `hmac.digest` with SHA-256 under the separated key: 32 bytes. -/
structure Mac where
  digest : Text → List ℕ
  length : ∀ payload, (digest payload).length = 32

/-- `signature` -/
def Mac.signature (mac : Mac) (payload : Text) : Text :=
  (urlsafeB64 (mac.digest payload)).rdropWhile (· == 61)

/-- `[A-Za-z0-9_-]{43}` -/
def isMac (t : Text) : Bool := t.length == 43 && t.all isUrlsafe

theorem isMac_signature (mac : Mac) (payload : Text) : isMac (mac.signature payload) = true := by
  obtain ⟨t, ht, hlength, hsafe⟩ := urlsafeB64_padded 10 (mac.digest payload) (mac.length payload)
  have hlast : (urlsafeB64 (mac.digest payload)).rdropWhile (· == 61) = t := by
    rw [ht, List.rdropWhile_concat_pos _ _ _ (by decide), List.rdropWhile_eq_self_iff]
    intro hne heq
    rw [beq_iff_eq] at heq
    have hsafe := hsafe _ (List.getLast_mem hne)
    rw [heq] at hsafe
    cases hsafe
  rw [isMac, Mac.signature, hlast, hlength, Bool.and_eq_true, List.all_eq_true]
  exact ⟨rfl, hsafe⟩

/-! ## Tokens -/

/-- `[a-f0-9]` -/
def isHex (c : ℕ) : Bool := (97 ≤ c && c ≤ 102) || (48 ≤ c && c ≤ 57)

/-- `[a-f0-9]{n}` -/
def isHexRun (n : ℕ) (t : Text) : Bool := t.length == n && t.all isHex

/-- `[0-9]{1,n}` -/
def isDigitRun (n : ℕ) (t : Text) : Bool :=
  1 ≤ t.length && t.length ≤ n && t.all JsonText.isDigit

/-- `USER` -/
def isUserId (t : Text) : Bool :=
  match t.splitOn 45 with
  | [a, b, c, d, e] =>
    isHexRun 8 a && isHexRun 4 b && (isHexRun 4 c && c.head?.any fun v => 49 ≤ v && v ≤ 53) &&
      (isHexRun 4 d && d.head?.any fun v => v == 56 || v == 57 || v == 97 || v == 98) &&
      isHexRun 12 e
  | _ => false

/-- `FIELDS` -/
def areFields (user generation expires : Text) : Bool :=
  isUserId user && isDigitRun 19 generation && isDigitRun 12 expires

/-- `TOKEN.fullmatch`, on the parts between the dots. -/
def areParts : List Text → Bool
  | [version, user, generation, expires, mac] =>
    version == [49] && areFields user generation expires && isMac mac
  | [version, user, generation, expires, device, mac] =>
    version == [50] && areFields user generation expires && isHexRun 32 device && isMac mac
  | _ => false

def isToken (token : Text) : Bool := areParts (token.splitOn 46)

/-- What is read of a row of `users`. -/
structure User where
  id : Text
  generation : ℤ
  issuer : Text
  deriving DecidableEq

/-- `"local"` -/
def localIssuer : Text := [108, 111, 99, 97, 108]

/-- `LIFETIME` -/
def lifetime : ℤ := 90 * 86400

/-- The checks of `valid` on `fields`; the payload is what stands before the last dot. -/
def fieldsValid (mac : Mac) (user : User) (now : ℚ) (fields : List Text) : Bool :=
  match fields with
  | _ :: identifier :: generation :: expires :: _ =>
    fields.getLast? == some (mac.signature (List.intercalate [46] fields.dropLast)) &&
      identifier == user.id && (JsonText.decimal generation : ℤ) == user.generation &&
      decide (now < JsonText.decimal expires) &&
      decide ((JsonText.decimal expires : ℚ) ≤ now + lifetime)
  | _ => false

/-- `valid` -/
def valid (mac : Mac) (token : Option Text) (user : Option User) (now : ℚ) : Bool :=
  match token, user with
  | some token, some user =>
    isToken token && user.issuer == localIssuer && fieldsValid mac user now (token.splitOn 46)
  | _, _ => false

/-- `device_id` -/
def deviceId (token : Option Text) : Option Text :=
  match token with
  | some token =>
    if isToken token && token.take 2 == [50, 46] then (token.splitOn 46)[4]? else none
  | none => none

/-- `int(now)` -/
def truncate (now : ℚ) : ℤ := if 0 ≤ now then ⌊now⌋ else ⌈now⌉

/-- `f"2.{user['id']}.{user['generation']}.{int(now) + LIFETIME}.{identifier}"` -/
def payload (user : User) (now : ℚ) (identifier : Text) : Text :=
  50 :: 46 :: (user.id ++ 46 :: (JsonText.dumpInt user.generation ++
    46 :: (JsonText.dumpInt (truncate now + lifetime) ++ 46 :: identifier)))

/-- The payload and its signature. -/
def signed (mac : Mac) (user : User) (now : ℚ) (identifier : Text) : Text :=
  payload user now identifier ++ 46 :: mac.signature (payload user now identifier)

/-- The identifier of the token that is issued; `fresh` is `secrets.token_hex(16)`. -/
def identifier (mac : Mac) (user : User) (now : ℚ) (previous : Option Text) (fresh : Text) : Text :=
  match if valid mac previous (some user) now then deviceId previous else none with
  | some device => if device == [] then fresh else device
  | none => fresh

/-- `issue` -/
def issue (mac : Mac) (user : User) (now : ℚ) (previous : Option Text) (fresh : Text) : Text :=
  signed mac user now (identifier mac user now previous fresh)

/-! ## The characters of a token -/

theorem isUrlsafe_of_isHex {c : ℕ} (h : isHex c = true) : isUrlsafe c = true := by
  rw [isHex] at h
  rw [isUrlsafe]
  grind

theorem isUrlsafe_of_isDigit {c : ℕ} (h : JsonText.isDigit c = true) : isUrlsafe c = true := by
  rw [JsonText.isDigit] at h
  rw [isUrlsafe]
  grind

theorem urlsafe_of_isHexRun {n : ℕ} {t : Text} (h : isHexRun n t = true) :
    ∀ c ∈ t, isUrlsafe c = true := by
  rw [isHexRun, Bool.and_eq_true, List.all_eq_true] at h
  exact fun c hc => isUrlsafe_of_isHex (h.2 c hc)

theorem urlsafe_of_isDigitRun {n : ℕ} {t : Text} (h : isDigitRun n t = true) :
    ∀ c ∈ t, isUrlsafe c = true := by
  rw [isDigitRun, Bool.and_eq_true, List.all_eq_true] at h
  exact fun c hc => isUrlsafe_of_isDigit (h.2 c hc)

theorem urlsafe_of_isMac {t : Text} (h : isMac t = true) : ∀ c ∈ t, isUrlsafe c = true := by
  rw [isMac, Bool.and_eq_true, List.all_eq_true] at h
  exact h.2

theorem urlsafe_of_isUserId {t : Text} (h : isUserId t = true) : ∀ c ∈ t, isUrlsafe c = true := by
  rw [isUserId] at h
  split at h
  · rename_i a b c d e hsplit
    have hjoin : List.intercalate [45] (t.splitOn 45) = t := List.intercalate_splitOn 45
    simp only [Bool.and_eq_true] at h
    obtain ⟨⟨⟨⟨ha, hb⟩, hc, -⟩, hd, -⟩, he⟩ := h
    rw [← hjoin, hsplit]
    intro v hv
    rcases mem_intercalate hv with hdash | ⟨p, hp, hpart⟩
    · rw [hdash]
      decide
    · simp only [List.mem_cons, List.not_mem_nil, or_false] at hp
      obtain rfl | rfl | rfl | rfl | rfl := hp
      · exact urlsafe_of_isHexRun ha v hpart
      · exact urlsafe_of_isHexRun hb v hpart
      · exact urlsafe_of_isHexRun hc v hpart
      · exact urlsafe_of_isHexRun hd v hpart
      · exact urlsafe_of_isHexRun he v hpart
  · cases h

theorem dot_notMem {t : Text} (h : ∀ c ∈ t, isUrlsafe c = true) : 46 ∉ t := fun hm =>
  absurd (h 46 hm) (by decide)

/-- The parts of a token have no dot, no semicolon and no space. -/
theorem urlsafe_of_areParts {parts : List Text} (h : areParts parts = true) :
    ∀ p ∈ parts, ∀ c ∈ p, isUrlsafe c = true := by
  rw [areParts.eq_def] at h
  split at h
  · rename_i version user generation expires mac
    simp only [Bool.and_eq_true, areFields, beq_iff_eq] at h
    obtain ⟨⟨rfl, ⟨huser, hgeneration⟩, hexpires⟩, hmac⟩ := h
    intro p hp
    simp only [List.mem_cons, List.not_mem_nil, or_false] at hp
    obtain rfl | rfl | rfl | rfl | rfl := hp
    · decide
    · exact urlsafe_of_isUserId huser
    · exact urlsafe_of_isDigitRun hgeneration
    · exact urlsafe_of_isDigitRun hexpires
    · exact urlsafe_of_isMac hmac
  · rename_i version user generation expires device mac
    simp only [Bool.and_eq_true, areFields, beq_iff_eq] at h
    obtain ⟨⟨⟨rfl, ⟨huser, hgeneration⟩, hexpires⟩, hdevice⟩, hmac⟩ := h
    intro p hp
    simp only [List.mem_cons, List.not_mem_nil, or_false] at hp
    obtain rfl | rfl | rfl | rfl | rfl | rfl := hp
    · decide
    · exact urlsafe_of_isUserId huser
    · exact urlsafe_of_isDigitRun hgeneration
    · exact urlsafe_of_isDigitRun hexpires
    · exact urlsafe_of_isHexRun hdevice
    · exact urlsafe_of_isMac hmac
  · cases h

/-- A character that a cookie may have anywhere. -/
def isPlain (c : ℕ) : Bool := c != 59 && !Text.isSpace c

theorem isPlain_of_isUrlsafe {c : ℕ} (h : isUrlsafe c = true) : isPlain c = true := by
  have hrange : 45 ≤ c ∧ c ≤ 122 ∧ c ≠ 59 := by
    rw [isUrlsafe] at h
    grind
  rw [isPlain, Text.isSpace, Bool.and_eq_true, bne_iff_ne, Bool.not_eq_true']
  refine ⟨hrange.2.2, ?_⟩
  simp only [Bool.or_eq_false_iff, Bool.and_eq_false_iff, decide_eq_false_iff_not,
    beq_eq_false_iff_ne]
  omega

theorem isSpace_of_isPlain {c : ℕ} (h : isPlain c = true) : Text.isSpace c = false := by
  rw [isPlain, Bool.and_eq_true, Bool.not_eq_true'] at h
  exact h.2

theorem isPlain_of_isToken {token : Text} (h : isToken token = true) :
    ∀ c ∈ token, isPlain c = true := by
  have hjoin : List.intercalate [46] (token.splitOn 46) = token := List.intercalate_splitOn 46
  rw [← hjoin]
  intro c hc
  rcases mem_intercalate hc with rfl | ⟨p, hp, hc⟩
  · decide
  · exact isPlain_of_isUrlsafe (urlsafe_of_areParts h p hp c hc)

/-! ## The parts of a signed token -/

theorem length_digits_le {n k : ℕ} (hk : 0 < k) (h : n < 10 ^ k) :
    (JsonText.digits n).length ≤ k := by
  rw [JsonText.digits]
  split
  · exact hk
  · rw [List.length_map, List.length_reverse]
    exact (Nat.digits_length_le_iff (by omega) n).mpr h

theorem isDigitRun_digits {n k : ℕ} (hk : 0 < k) (h : n < 10 ^ k) :
    isDigitRun k (JsonText.digits n) = true := by
  have hpos : 1 ≤ (JsonText.digits n).length := by
    obtain ⟨c, t, hcons, -⟩ := JsonText.exists_head_digits n
    rw [hcons, List.length_cons]
    omega
  rw [isDigitRun, Bool.and_eq_true, Bool.and_eq_true, decide_eq_true_eq, decide_eq_true_eq,
    List.all_eq_true]
  exact ⟨⟨hpos, length_digits_le hk h⟩, fun c hc => JsonText.isDigit_of_mem_digits hc⟩

theorem dot_notMem_digits (n : ℕ) : 46 ∉ JsonText.digits n :=
  dot_notMem fun _ hc => isUrlsafe_of_isDigit (JsonText.isDigit_of_mem_digits hc)

/-- An account whose token can be read: its identifier is one of `users`, its generation has at most
19 digits. -/
structure User.Fits (user : User) : Prop where
  id : isUserId user.id = true
  generation : 0 ≤ user.generation ∧ user.generation < 10 ^ 19

/-- A time whose expiry has at most 12 digits. -/
def InRange (now : ℚ) : Prop := 0 ≤ now ∧ ⌊now⌋ + lifetime < 10 ^ 12

theorem dumpInt_of_nonneg {n : ℤ} (h : 0 ≤ n) : JsonText.dumpInt n = JsonText.digits n.toNat := by
  obtain ⟨m, rfl⟩ := Int.eq_ofNat_of_zero_le h
  rfl

section Signed

variable {mac : Mac} {user : User} {now : ℚ} {device : Text}

theorem truncate_of_nonneg (h : 0 ≤ now) : truncate now = ⌊now⌋ := if_pos h

theorem expiry_nonneg (h : InRange now) : 0 ≤ ⌊now⌋ + lifetime := by
  have := Int.floor_nonneg.mpr h.1
  rw [lifetime]
  omega

/-- The parts of a signed token. -/
def signedParts (mac : Mac) (user : User) (now : ℚ) (device : Text) : List Text :=
  [[50], user.id, JsonText.digits user.generation.toNat,
    JsonText.digits (⌊now⌋ + lifetime).toNat, device, mac.signature (payload user now device)]

theorem splitOn_signed (hu : user.Fits) (hnow : InRange now) (hdevice : isHexRun 32 device = true) :
    (signed mac user now device).splitOn 46 = signedParts mac user now device := by
  have hversion : ∀ t : Text, (50 :: 46 :: t).splitOn 46 = [50] :: t.splitOn 46 := fun t =>
    @List.splitOn_append_cons_self_of_not_mem ℕ [50] _ _ 46 (by decide) t
  have hmac := dot_notMem (urlsafe_of_isMac (isMac_signature mac (payload user now device)))
  rw [signed, signedParts]
  generalize mac.signature (payload user now device) = signature at hmac ⊢
  rw [payload, truncate_of_nonneg hnow.1, dumpInt_of_nonneg hu.generation.1,
    dumpInt_of_nonneg (expiry_nonneg hnow)]
  simp only [List.append_assoc, List.cons_append]
  rw [hversion,
    List.splitOn_append_cons_self_of_not_mem (dot_notMem (urlsafe_of_isUserId hu.id)),
    List.splitOn_append_cons_self_of_not_mem (dot_notMem_digits _),
    List.splitOn_append_cons_self_of_not_mem (dot_notMem_digits _),
    List.splitOn_append_cons_self_of_not_mem (dot_notMem (urlsafe_of_isHexRun hdevice)),
    List.splitOn_eq_singleton hmac]

theorem intercalate_signed (hu : user.Fits) (hnow : InRange now) :
    List.intercalate [46] (signedParts mac user now device).dropLast = payload user now device := by
  rw [payload, truncate_of_nonneg hnow.1, dumpInt_of_nonneg hu.generation.1,
    dumpInt_of_nonneg (expiry_nonneg hnow)]
  simp [signedParts, List.intercalate]

theorem isToken_signed (hu : user.Fits) (hnow : InRange now) (hdevice : isHexRun 32 device = true) :
    isToken (signed mac user now device) = true := by
  have hgeneration : user.generation.toNat < 10 ^ 19 := by
    have := hu.generation
    omega
  have hexpiry : (⌊now⌋ + lifetime).toNat < 10 ^ 12 := by
    have h := expiry_nonneg hnow
    have := hnow.2
    omega
  rw [isToken, splitOn_signed hu hnow hdevice, signedParts, areParts, areFields, hu.id,
    isDigitRun_digits (by omega) hgeneration, isDigitRun_digits (by omega) hexpiry, hdevice,
    isMac_signature]
  rfl

theorem deviceId_signed (hu : user.Fits) (hnow : InRange now)
    (hdevice : isHexRun 32 device = true) :
    deviceId (some (signed mac user now device)) = some device := by
  rw [deviceId, isToken_signed hu hnow hdevice, splitOn_signed hu hnow hdevice]
  rfl

/-- For whom and when a signed token is valid: for the account in its generation, from the second
of the signature on and for 90 days. -/
theorem valid_signed (hu : user.Fits) (hnow : InRange now) (hdevice : isHexRun 32 device = true)
    (u : User) (t : ℚ) :
    valid mac (some (signed mac user now device)) (some u) t = true ↔
      u.issuer = localIssuer ∧ u.id = user.id ∧ u.generation = user.generation ∧ ⌊now⌋ ≤ t ∧
        t < ⌊now⌋ + lifetime := by
  have hexpiry : (((⌊now⌋ + lifetime).toNat : ℕ) : ℚ) = (⌊now⌋ : ℚ) + lifetime := by
    have h := Int.toNat_of_nonneg (expiry_nonneg hnow)
    exact_mod_cast congrArg (Int.cast : ℤ → ℚ) h
  have hgeneration : ((user.generation.toNat : ℕ) : ℤ) = user.generation :=
    Int.toNat_of_nonneg hu.generation.1
  have hpayload : List.intercalate [46] (signedParts mac user now device).dropLast =
      payload user now device := intercalate_signed hu hnow
  have hfields : fieldsValid mac u t (signedParts mac user now device) =
      (user.id == u.id && user.generation == u.generation &&
        decide (t < (⌊now⌋ : ℚ) + lifetime) &&
        decide ((⌊now⌋ : ℚ) + lifetime ≤ t + lifetime)) := by
    rw [← hexpiry, ← JsonText.decimal_digits (⌊now⌋ + lifetime).toNat, fieldsValid.eq_def,
      hpayload]
    simp only [signedParts, List.getLast?_cons_cons, List.getLast?_singleton, beq_self_eq_true,
      Bool.true_and, JsonText.decimal_digits, hgeneration]
  rw [valid, isToken_signed hu hnow hdevice, splitOn_signed hu hnow hdevice, hfields,
    Bool.true_and]
  simp only [Bool.and_eq_true, beq_iff_eq, decide_eq_true_eq]
  constructor
  · rintro ⟨hissuer, ⟨⟨hid, hgen⟩, hlt⟩, hle⟩
    exact ⟨hissuer, hid.symm, hgen.symm, by linarith, hlt⟩
  · rintro ⟨hissuer, hid, hgen, hle, hlt⟩
    exact ⟨hissuer, ⟨⟨hid.symm, hgen.symm⟩, hlt⟩, by linarith⟩

end Signed

/-! ## The identifier of an issued token -/

section Issue

variable {mac : Mac} {user : User} {now : ℚ} {previous : Option Text} {fresh device : Text}

theorem identifier_of_not_valid (h : valid mac previous (some user) now = false) :
    identifier mac user now previous fresh = fresh := by
  rw [identifier, h]
  rfl

theorem identifier_of_valid (h : valid mac previous (some user) now = true)
    (hdevice : deviceId previous = some device) (hhex : isHexRun 32 device = true) :
    identifier mac user now previous fresh = device := by
  have hne : (device == []) = false := by
    rw [beq_eq_false_iff_ne]
    rintro rfl
    cases hhex
  simp [identifier, h, hdevice, hne]

end Issue

/-! ## The cookie -/

/-- The value of a pair of the header with the name. -/
def cookieValue (name pair : Text) : Option Text :=
  if pair.takeWhile (· != 61) == name && pair.contains 61 then
    some ((pair.dropWhile (· != 61)).drop 1)
  else none

/-- `read`, on the value of the header `cookie`. -/
def read (header name : Text) : Option Text :=
  match (header.splitOn 59).filterMap fun pair => cookieValue name (Text.strip pair) with
  | [value] => if isToken value then some value else none
  | _ => none

/-- A cookie that a browser sends as it is. -/
structure Sendable (cookie : Text × Text) : Prop where
  name : 61 ∉ cookie.1
  whole : ∀ c ∈ cookie.1 ++ 61 :: cookie.2, isPlain c = true

/-- The header `cookie` of a browser. -/
def cookieHeader (cookies : List (Text × Text)) : Text :=
  List.intercalate [59, 32] (cookies.map fun c => c.1 ++ 61 :: c.2)

theorem cookieValue_pair {name : Text} {cookie : Text × Text} (h : 61 ∉ cookie.1) :
    cookieValue name (cookie.1 ++ 61 :: cookie.2) =
      if cookie.1 == name then some cookie.2 else none := by
  have hne : ∀ c ∈ cookie.1, (c != 61) = true := fun c hc => bne_iff_ne.mpr fun he => h (he ▸ hc)
  have htake : (cookie.1 ++ 61 :: cookie.2).takeWhile (· != 61) = cookie.1 := by
    rw [List.takeWhile_append_of_pos hne]
    simp
  have hdrop : (cookie.1 ++ 61 :: cookie.2).dropWhile (· != 61) = 61 :: cookie.2 := by
    rw [List.dropWhile_append_of_pos hne]
    simp
  rw [cookieValue, htake, hdrop]
  simp

theorem intercalate_blank (p : Text) : ∀ rest : List Text,
    List.intercalate [59, 32] (p :: rest) = List.intercalate [59] (p :: rest.map (32 :: ·))
  | [] => by
    simp [List.intercalate]
  | q :: rest => by
    have ih := intercalate_blank q rest
    simp only [List.intercalate, List.map_cons, List.intersperse_cons_cons,
      List.flatten_cons] at ih ⊢
    rw [ih]
    cases rest with
    | nil => simp
    | cons r rest => simp

theorem splitOn_cookieHeader {cookies : List (Text × Text)} (h : ∀ c ∈ cookies, Sendable c)
    (name : Text) :
    ((cookieHeader cookies).splitOn 59).filterMap (fun pair => cookieValue name (Text.strip pair)) =
      (cookies.filter fun c => c.1 == name).map Prod.snd := by
  have hvalue : ∀ c ∈ cookies, cookieValue name (Text.strip (c.1 ++ 61 :: c.2)) =
      if c.1 == name then some c.2 else none := by
    intro c hc
    rw [Text.strip_of_plain fun d hd => isSpace_of_isPlain ((h c hc).whole d hd),
      cookieValue_pair (h c hc).name]
  have hblank : ∀ t : Text, Text.strip (32 :: t) = Text.strip t := by
    intro t
    rw [Text.strip, Text.strip, List.dropWhile_cons_of_pos (by decide)]
  cases cookies with
  | nil => simp [cookieHeader, cookieValue, Text.strip]
  | cons c rest =>
    rw [cookieHeader, List.map_cons, intercalate_blank, List.splitOn_intercalate]
    · rw [List.filterMap_cons, hvalue c List.mem_cons_self, List.map_map, List.filterMap_map]
      have hrest : rest.filterMap ((fun pair => cookieValue name (Text.strip pair)) ∘
          (32 :: ·) ∘ fun c => c.1 ++ 61 :: c.2) =
          (rest.filter fun c => c.1 == name).map Prod.snd := by
        rw [← List.filterMap_eq_map, List.filterMap_filter]
        refine List.filterMap_congr fun d hd => ?_
        rw [Function.comp_apply, Function.comp_apply, hblank,
          hvalue d (List.mem_cons_of_mem _ hd)]
        rfl
      rw [hrest, List.filter_cons]
      split <;> simp_all
    · intro l hl
      rw [List.mem_cons, List.mem_map] at hl
      obtain rfl | ⟨p, hp, rfl⟩ := hl
      · exact fun hm => absurd ((h c List.mem_cons_self).whole 59 hm) (by decide)
      · obtain ⟨d, hd, rfl⟩ := List.mem_map.mp hp
        intro hm
        obtain heq | hm := List.mem_cons.mp hm
        · cases heq
        · exact absurd ((h d (List.mem_cons_of_mem _ hd)).whole 59 hm) (by decide)
    · exact List.cons_ne_nil _ _

/-- **A token is read** of the cookies of a browser exactly if one cookie has the name and its value
is a token. -/
theorem read_cookies {cookies : List (Text × Text)} (h : ∀ c ∈ cookies, Sendable c)
    (name value : Text) :
    read (cookieHeader cookies) name = some value ↔
      (cookies.filter fun c => c.1 == name).map Prod.snd = [value] ∧ isToken value = true := by
  rw [read, splitOn_cookieHeader h]
  generalize (cookies.filter fun c => c.1 == name).map Prod.snd = values
  split
  · rename_i v
    by_cases hv : isToken v = true
    · rw [if_pos hv, Option.some.injEq, List.singleton_inj]
      constructor
      · rintro rfl
        exact ⟨rfl, hv⟩
      · exact fun hn => hn.1
    · rw [if_neg hv, List.singleton_inj]
      constructor
      · exact fun hn => nomatch hn
      · rintro ⟨rfl, hn⟩
        exact absurd hn hv
  · rename_i hother
    constructor
    · exact fun hn => nomatch hn
    · rintro ⟨rfl, -⟩
      exact absurd rfl (hother value)

/-! ## A browser -/

/-- What becomes of the token of a browser: an account signs in, with other cookies of the browser
before and after the token, or the browser loses the token. -/
inductive Event where
  | signIn (user : User) (now : ℚ) (fresh : Text) (before after : List (Text × Text))
  | clear

/-- The header that is sent with the token. -/
def sent (name : Text) (token : Option Text) (before after : List (Text × Text)) : Text :=
  cookieHeader (before ++ (token.toList.map (Prod.mk name)) ++ after)

/-- The token of a browser after an event: `mint` sets one for a local account only. -/
def browse (mac : Mac) (name : Text) (token : Option Text) : Event → Option Text
  | .signIn user now fresh before after =>
    if user.issuer == localIssuer then
      some (issue mac user now (read (sent name token before after) name) fresh)
    else token
  | .clear => none

/-- Cookies beside the token. -/
def Beside (name : Text) (cookies : List (Text × Text)) : Prop :=
  ∀ c ∈ cookies, Sendable c ∧ c.1 ≠ name

/-- An event of a browser; a local account that signs in fits, and so do the time and the drawn
identifier. -/
def Event.Fits (name : Text) : Event → Prop
  | .signIn user now fresh before after =>
    (user.issuer = localIssuer → user.Fits ∧ InRange now ∧ isHexRun 32 fresh = true) ∧
      Beside name before ∧ Beside name after
  | .clear => True

/-- The name of a cookie. -/
def IsCookieName (name : Text) : Prop := 61 ∉ name ∧ ∀ c ∈ name, isPlain c = true

/-- What is known of a browser: the account that signed in last, in which generation and at which
second, and the identifier of the device. -/
structure Recognized where
  id : Text
  generation : ℤ
  since : ℤ
  device : Text

/-- The account is the one that signed in last, in the same generation, within the lifetime. -/
def Recognized.Admits (r : Recognized) (u : User) (t : ℚ) : Prop :=
  u.issuer = localIssuer ∧ u.id = r.id ∧ u.generation = r.generation ∧ r.since ≤ t ∧
    t < r.since + lifetime

instance (r : Recognized) (u : User) (t : ℚ) : Decidable (r.Admits u t) :=
  inferInstanceAs (Decidable (_ ∧ _ ∧ _ ∧ _ ∧ _))

/-- The identifier of the device is the one that is known, if the account is known to use it. -/
def deviceOf (known : Option Recognized) (user : User) (now : ℚ) (fresh : Text) : Text :=
  match known with
  | some r => if r.Admits user now then r.device else fresh
  | none => fresh

def recognize (known : Option Recognized) : Event → Option Recognized
  | .signIn user now fresh _ _ =>
    if user.issuer = localIssuer then
      some ⟨user.id, user.generation, ⌊now⌋, deviceOf known user now fresh⟩
    else known
  | .clear => none

/-- The token says what is known. -/
inductive Says (mac : Mac) : Option Recognized → Option Text → Prop
  | unknown : Says mac none none
  | known {user : User} {now : ℚ} {device : Text} (hu : user.Fits) (hnow : InRange now)
      (hdevice : isHexRun 32 device = true) :
      Says mac (some ⟨user.id, user.generation, ⌊now⌋, device⟩)
        (some (signed mac user now device))

section Browser

variable {mac : Mac} {name : Text} {known : Option Recognized} {token : Option Text}

theorem Says.isToken (h : Says mac known token) : ∀ t ∈ token, isToken t = true := by
  cases h with
  | unknown => exact nofun
  | known hu hnow hdevice =>
    rintro _ ⟨⟩
    exact isToken_signed hu hnow hdevice

/-- A token that is sent is read. -/
theorem read_sent (hname : IsCookieName name) (htoken : ∀ t ∈ token, isToken t = true)
    {before after : List (Text × Text)} (hbefore : Beside name before)
    (hafter : Beside name after) :
    read (sent name token before after) name = token := by
  have hother : ∀ l : List (Text × Text), Beside name l → (l.filter fun c => c.1 == name) = [] :=
    fun l hl => List.filter_eq_nil_iff.mpr fun c hc => by
      rw [beq_iff_eq]
      exact (hl c hc).2
  have hsendable : ∀ c ∈ before ++ token.toList.map (Prod.mk name) ++ after, Sendable c := by
    intro c hc
    rw [List.mem_append, List.mem_append, List.mem_map] at hc
    obtain (hc | ⟨t, ht, rfl⟩) | hc := hc
    · exact (hbefore c hc).1
    · have hplain := isPlain_of_isToken (htoken t (Option.mem_toList.mp ht))
      refine ⟨hname.1, fun c hc => ?_⟩
      rw [List.mem_append, List.mem_cons] at hc
      obtain hc | rfl | hc := hc
      · exact hname.2 c hc
      · decide
      · exact hplain c hc
    · exact (hafter c hc).1
  have hvalues : ((before ++ token.toList.map (Prod.mk name) ++ after).filter
      fun c => c.1 == name).map Prod.snd = token.toList := by
    rw [List.filter_append, List.filter_append, hother _ hbefore, hother _ hafter]
    cases token <;> simp
  ext v
  rw [sent, read_cookies hsendable, hvalues]
  cases token with
  | none => simp
  | some t =>
    simp only [Option.toList_some, List.singleton_inj, Option.some.injEq, and_iff_left_iff_imp]
    rintro rfl
    exact htoken t rfl

/-- A token is valid for the account that is known to use the browser. -/
theorem Says.valid_iff (h : Says mac known token) (u : User) (t : ℚ) :
    valid mac token (some u) t = true ↔ ∃ r, known = some r ∧ r.Admits u t := by
  cases h with
  | unknown =>
    constructor
    · exact fun hvalid => nomatch hvalid
    · rintro ⟨r, ⟨⟩, -⟩
  | known hu hnow hdevice =>
    rw [valid_signed hu hnow hdevice]
    constructor
    · exact fun hadmits => ⟨_, rfl, hadmits⟩
    · rintro ⟨r, ⟨⟩, hadmits⟩
      exact hadmits

theorem Says.deviceId_eq (h : Says mac known token) :
    deviceId token = known.map Recognized.device := by
  cases h with
  | unknown => rfl
  | known hu hnow hdevice => exact deviceId_signed hu hnow hdevice

/-- An issued token has the identifier that is known of the device. -/
theorem Says.identifier_eq (h : Says mac known token) (user : User) (now : ℚ) (fresh : Text) :
    identifier mac user now token fresh = deviceOf known user now fresh := by
  have hvalid := h.valid_iff user now
  have hid := h.deviceId_eq
  cases h with
  | unknown => rfl
  | @known u s device hu hnow hdevice =>
    rw [deviceOf]
    split
    · rename_i hadmits
      exact identifier_of_valid (hvalid.mpr ⟨_, rfl, hadmits⟩) hid hdevice
    · rename_i hadmits
      refine identifier_of_not_valid ?_
      rw [← Bool.not_eq_true]
      intro hold
      obtain ⟨r, ⟨⟩, hold⟩ := hvalid.mp hold
      exact hadmits hold

theorem Says.isHexRun_deviceOf (h : Says mac known token) {user : User} {now : ℚ} {fresh : Text}
    (hfresh : isHexRun 32 fresh = true) : isHexRun 32 (deviceOf known user now fresh) = true := by
  cases h with
  | unknown => exact hfresh
  | known hu hnow hdevice =>
    rw [deviceOf]
    split
    · exact hdevice
    · exact hfresh

/-- One event. -/
theorem Says.browse (h : Says mac known token) (hname : IsCookieName name) {e : Event}
    (he : e.Fits name) : Says mac (recognize known e) (browse mac name token e) := by
  cases e with
  | clear => exact .unknown
  | signIn user now fresh before after =>
    obtain ⟨huser, hbefore, hafter⟩ := he
    rw [recognize, KnownDevice.browse, read_sent hname h.isToken hbefore hafter, issue,
      h.identifier_eq]
    by_cases hlocal : user.issuer = localIssuer
    · obtain ⟨hu, hnow, hfresh⟩ := huser hlocal
      rw [if_pos hlocal, if_pos (beq_iff_eq.mpr hlocal)]
      exact .known hu hnow (h.isHexRun_deviceOf hfresh)
    · rw [if_neg hlocal, if_neg (mt beq_iff_eq.mp hlocal)]
      exact h

/-- Any events. -/
theorem Says.foldl (hname : IsCookieName name) : ∀ (events : List Event),
    (∀ e ∈ events, e.Fits name) → ∀ {known : Option Recognized} {token : Option Text},
      Says mac known token →
        Says mac (events.foldl recognize known) (events.foldl (KnownDevice.browse mac name) token)
  | [], _, _, _, h => h
  | e :: events, hfits, _, _, h =>
    Says.foldl hname events (fun d hd => hfits d (List.mem_cons_of_mem e hd))
      (h.browse hname (hfits e List.mem_cons_self))

/-- **What is known of a browser** after any events: its token is the one cookie that is read, has
the identifier that is known of the device, and is valid for exactly the account that signed in
last.

A token names one account.  When another account signs in, `issue` does not find the old token valid
for it and draws a new identifier, and the same happens when the generation of the account has
changed or the token is over; `recognize` says this without any token. -/
theorem browser_recognized (mac : Mac) (hname : IsCookieName name) (events : List Event)
    (hfits : ∀ e ∈ events, e.Fits name) :
    deviceId (events.foldl (browse mac name) none) =
        (events.foldl recognize none).map Recognized.device ∧
      (∀ u t, valid mac (events.foldl (browse mac name) none) (some u) t = true ↔
        ∃ r, events.foldl recognize none = some r ∧ r.Admits u t) ∧
      ∀ before after, Beside name before → Beside name after →
        read (sent name (events.foldl (browse mac name) none) before after) name =
          events.foldl (browse mac name) none := by
  have h : Says mac _ _ := Says.foldl hname events hfits .unknown
  exact ⟨h.deviceId_eq, h.valid_iff, fun _ _ => read_sent hname h.isToken⟩

end Browser

/-- A hash of 32 equal bytes. -/
def sampleMac : Mac := ⟨fun payload => List.replicate 32 (payload.length % 256), by simp⟩

/-- `portal-dev-device` -/
def sampleName : Text :=
  [112, 111, 114, 116, 97, 108, 45, 100, 101, 118, 45, 100, 101, 118, 105, 99, 101]

/-- `00000000-0000-4000-8000-000000000000` -/
def sampleUser : User where
  id := List.replicate 8 48 ++ 45 :: List.replicate 4 48 ++
    [45, 52, 48, 48, 48, 45, 56, 48, 48, 48, 45] ++ List.replicate 12 48
  generation := 1
  issuer := localIssuer

/-- A second sign-in of the account after a day, beside another cookie. -/
def sampleEvents : List Event :=
  [.signIn sampleUser 1000 (List.replicate 32 97) [] [],
    .signIn sampleUser 87400 (List.replicate 32 98) [([97], [98])] []]

theorem fits_sampleEvents : ∀ e ∈ sampleEvents, e.Fits sampleName := by
  have huser : sampleUser.Fits := ⟨by decide, by decide⟩
  have hrange : InRange 1000 ∧ InRange 87400 := by
    rw [InRange, InRange, lifetime]
    norm_num
  have hbeside : Beside sampleName [([97], [98])] := by
    intro c hc
    rw [List.mem_singleton.mp hc]
    exact ⟨⟨by decide, by decide⟩, by decide⟩
  intro e he
  simp only [sampleEvents, List.mem_cons, List.not_mem_nil, or_false] at he
  obtain rfl | rfl := he
  · exact ⟨fun _ => ⟨huser, hrange.1, by decide⟩, nofun, nofun⟩
  · exact ⟨fun _ => ⟨huser, hrange.2, by decide⟩, hbeside, nofun⟩

/-- The identifier is the one of the first sign-in. -/
theorem browser_recognized_sample :
    deviceId (sampleEvents.foldl (browse sampleMac sampleName) none) =
      some (List.replicate 32 97) := by
  have hname : IsCookieName sampleName := ⟨by decide, by decide⟩
  have h := browser_recognized sampleMac hname sampleEvents fits_sampleEvents
  have hdevice : (sampleEvents.foldl recognize none).map Recognized.device =
      some (List.replicate 32 97) := by decide +kernel
  exact h.1.trans hdevice

end KnownDevice
end Broker
end OpenstackPlatform
