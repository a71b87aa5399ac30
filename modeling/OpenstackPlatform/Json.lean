import OpenstackPlatform.Library.Table

/-!
# JSON values of the operation refs

The `refs_json` column of an operation holds one JSON object.  `_refs_json` admits it only when no
key looks like secret material and the compact encoding fits in 16384 bytes; both checks raise
`ValidationError`, so they are part of what every write of the column can do.

The encoding is `json.dumps(..., sort_keys=True, separators=(",", ":"), ensure_ascii=True)`.  Only
its length matters here, and the length does not depend on the order of the keys: `Json.size`
computes it.
-/

namespace OpenstackPlatform

open Library

/-- A JSON value.  Refs hold no floating-point numbers. -/
inductive Json where
  | null
  | bool (value : Bool)
  | num (value : Int)
  | str (value : String)
  | arr (items : List Json)
  | obj (members : List (String × Json))

namespace Json

/-- The bytes that one character takes inside an encoded string, with `ensure_ascii`. -/
def charSize (c : Char) : Nat :=
  if c = '"' ∨ c = '\\' ∨ c = '\n' ∨ c = '\r' ∨ c = '\t' ∨ c.toNat = 8 ∨ c.toNat = 12 then 2
  else if 32 ≤ c.toNat ∧ c.toNat < 127 then 1
  else if c.toNat < 0x10000 then 6
  else 12

/-- The bytes of the characters of an encoded string. -/
def charsSize : List Char → Nat
  | [] => 0
  | c :: cs => charSize c + charsSize cs

/-- The bytes of an encoded string, with its quotes. -/
def stringSize (s : String) : Nat := 2 + charsSize s.toList

/-- The bytes of the separators between `n` items. -/
def separatorSize (n : Nat) : Nat := n - 1

mutual

/-- The bytes of the compact encoding of a value. -/
def size : Json → Nat
  | null => 4
  | bool true => 4
  | bool false => 5
  | num n => (toString n).length
  | str s => stringSize s
  | arr items => 2 + separatorSize items.length + sizeItems items
  | obj members => 2 + separatorSize members.length + sizeMembers members

/-- The bytes of the items of an array, without separators. -/
def sizeItems : List Json → Nat
  | [] => 0
  | item :: items => size item + sizeItems items

/-- The bytes of the members of an object, without separators. -/
def sizeMembers : List (String × Json) → Nat
  | [] => 0
  | (key, value) :: members => stringSize key + 1 + size value + sizeMembers members

end

/-- The words of `_SECRET_KEY`. -/
def secretWords : List String :=
  ["password", "passwd", "secret", "token", "credential", "private_key", "user_data",
    "cloud_init", "env_value", "source_content", "source_contents"]

/-- `_SECRET_KEY.search`: one of the words stands in the key between underscores or at its ends,
whatever its case. -/
def secretKey (key : String) : Bool :=
  secretWords.any fun word =>
    ('_' :: key.toList.map Char.toLower ++ ['_']).tails.any fun suffix =>
      ('_' :: word.toList ++ ['_']).isPrefixOf suffix

mutual

/-- `_walk_refs`, for one value: the first key in it that looks like secret material. -/
def walk : Json → Option String
  | arr items => walkItems items
  | obj members => walkMembers members
  | _ => none

/-- `_walk_refs` over the items of an array. -/
def walkItems : List Json → Option String
  | [] => none
  | item :: items => (walk item).or (walkItems items)

/-- `_walk_refs` over the members of an object. -/
def walkMembers : List (String × Json) → Option String
  | [] => none
  | (key, value) :: members =>
    if secretKey key then some key else (walk value).or (walkMembers members)

end

/-- The text of a JSON string, and nothing for any other value. -/
def asString? : Json → Option String
  | str s => some s
  | _ => none

/-- `value is None` -/
def isNone : Json → Bool
  | null => true
  | _ => false

/-- `value is True` -/
def isTrue : Json → Bool
  | bool true => true
  | _ => false

/-- `key in value`, for an object. -/
def hasKey (key : String) : Json → Bool
  | obj members => members.any fun m => m.1 == key
  | _ => false

end Json
end OpenstackPlatform
