import OpenstackPlatform.Library.Text

/-!
# Characters in streams of bytes

A stream of bytes need not be text, but it may hold characters: runs of bytes that are the UTF-8
encoding of a code point.  A place of the stream is inside a character when it separates bytes of
one.

* `IsCharacter`, `IsCharacter.shape`: a lead byte, and the continuation bytes that it asks for.
* `Inside`, `not_inside_of_byte`: places that are inside a character, and those that are not.
-/

namespace OpenstackPlatform
namespace Library
namespace Utf8

/-- The bytes are the encoding of a code point. -/
def IsCharacter (c : List UInt8) : Prop :=
  ∃ point, Text.isScalar point = true ∧ c.map UInt8.toNat = Text.encodePoint point

/-- A continuation byte. -/
def IsTail (b : UInt8) : Prop := 0x80 ≤ b.toNat ∧ b.toNat < 0xC0

/-- A lead byte asks for so many continuation bytes. -/
def Asks (lead : UInt8) (tails : Nat) : Prop :=
  (tails = 0 ∧ lead.toNat < 0x80) ∨ (tails = 1 ∧ 0xC2 ≤ lead.toNat ∧ lead.toNat ≤ 0xDF) ∨
    (tails = 2 ∧ 0xE0 ≤ lead.toNat ∧ lead.toNat ≤ 0xEF) ∨
    (tails = 3 ∧ 0xF0 ≤ lead.toNat ∧ lead.toNat ≤ 0xF4)

theorem Asks.not_isTail {lead : UInt8} {tails : Nat} (h : Asks lead tails) : ¬ IsTail lead := by
  intro htail
  unfold Asks at h
  unfold IsTail at htail
  omega

theorem Asks.le {lead : UInt8} {tails : Nat} (h : Asks lead tails) : tails ≤ 3 := by
  unfold Asks at h
  omega

/-- A character is a lead byte and the continuation bytes that it asks for. -/
theorem IsCharacter.shape {c : List UInt8} (h : IsCharacter c) :
    ∃ lead tails, c = lead :: tails ∧ Asks lead tails.length ∧ ∀ b ∈ tails, IsTail b := by
  obtain ⟨point, hscalar, hbytes⟩ := h
  have hvalid := Text.isScalar_iff.mp hscalar
  rw [Nat.isValidChar] at hvalid
  unfold Text.encodePoint at hbytes
  by_cases h1 : point < 0x80
  · rw [if_pos h1] at hbytes
    obtain ⟨lead, tails, rfl, hlead, htails⟩ := List.map_eq_cons_iff.mp hbytes
    obtain rfl := List.map_eq_nil_iff.mp htails
    refine ⟨lead, [], rfl, .inl ⟨rfl, by omega⟩, ?_⟩
    intro b hb
    cases hb
  by_cases h2 : point < 0x800
  · rw [if_neg h1, if_pos h2] at hbytes
    obtain ⟨lead, tails, rfl, hlead, htails⟩ := List.map_eq_cons_iff.mp hbytes
    obtain ⟨b, tails, rfl, hb, htails⟩ := List.map_eq_cons_iff.mp htails
    obtain rfl := List.map_eq_nil_iff.mp htails
    refine ⟨lead, [b], rfl, .inr (.inl ⟨rfl, by omega, by omega⟩), ?_⟩
    rintro d hd
    obtain rfl := List.mem_singleton.mp hd
    exact ⟨by omega, by omega⟩
  by_cases h3 : point < 0x10000
  · rw [if_neg h1, if_neg h2, if_pos h3] at hbytes
    obtain ⟨lead, tails, rfl, hlead, htails⟩ := List.map_eq_cons_iff.mp hbytes
    obtain ⟨b, tails, rfl, hb, htails⟩ := List.map_eq_cons_iff.mp htails
    obtain ⟨d, tails, rfl, hd, htails⟩ := List.map_eq_cons_iff.mp htails
    obtain rfl := List.map_eq_nil_iff.mp htails
    refine ⟨lead, [b, d], rfl, .inr (.inr (.inl ⟨rfl, by omega, by omega⟩)), ?_⟩
    intro e he
    rcases List.mem_cons.mp he with rfl | he
    · exact ⟨by omega, by omega⟩
    · obtain rfl := List.mem_singleton.mp he
      exact ⟨by omega, by omega⟩
  · rw [if_neg h1, if_neg h2, if_neg h3] at hbytes
    obtain ⟨lead, tails, rfl, hlead, htails⟩ := List.map_eq_cons_iff.mp hbytes
    obtain ⟨b, tails, rfl, hb, htails⟩ := List.map_eq_cons_iff.mp htails
    obtain ⟨d, tails, rfl, hd, htails⟩ := List.map_eq_cons_iff.mp htails
    obtain ⟨f, tails, rfl, hf, htails⟩ := List.map_eq_cons_iff.mp htails
    obtain rfl := List.map_eq_nil_iff.mp htails
    refine ⟨lead, [b, d, f], rfl, .inr (.inr (.inr ⟨rfl, by omega, by omega⟩)), ?_⟩
    intro e he
    rcases List.mem_cons.mp he with rfl | he
    · exact ⟨by omega, by omega⟩
    rcases List.mem_cons.mp he with rfl | he
    · exact ⟨by omega, by omega⟩
    · obtain rfl := List.mem_singleton.mp he
      exact ⟨by omega, by omega⟩

/-- A character of several bytes has none of ASCII. -/
theorem IsCharacter.notMem_of_lt {c : List UInt8} (h : IsCharacter c) (hlength : 1 < c.length)
    {b : UInt8} (hb : b.toNat < 0x80) : b ∉ c := by
  obtain ⟨lead, tails, rfl, hasks, htails⟩ := h.shape
  intro hmem
  rw [List.length_cons] at hlength
  rcases List.mem_cons.mp hmem with rfl | hmem
  · unfold Asks at hasks
    omega
  · have := (htails b hmem).1
    omega

/-- A place of a stream separates bytes of a character. -/
def Inside (s : List UInt8) (place : Nat) : Prop :=
  ∃ a c b, IsCharacter c ∧ s = a ++ (c ++ b) ∧ a.length < place ∧ place < a.length + c.length

/-- The byte after a place inside a character is a continuation byte. -/
theorem Inside.isTail {s : List UInt8} {place : Nat} (h : Inside s place) :
    ∃ b, s[place]? = some b ∧ IsTail b := by
  obtain ⟨a, c, b, hc, rfl, hlow, hhigh⟩ := h
  obtain ⟨lead, tails, rfl, -, htails⟩ := hc.shape
  rw [List.length_cons] at hhigh
  obtain ⟨i, rfl⟩ : ∃ i, place = a.length + (i + 1) := ⟨place - a.length - 1, by omega⟩
  have hlt : i < tails.length := by omega
  refine ⟨tails[i], ?_, htails _ (List.getElem_mem hlt)⟩
  rw [List.getElem?_append_right (Nat.le_add_right _ _), Nat.add_sub_cancel_left,
    List.cons_append, List.getElem?_cons_succ, List.getElem?_append_left hlt]
  exact List.getElem?_eq_getElem hlt

theorem not_inside_of_byte {s : List UInt8} {place : Nat} {b : UInt8} (hb : s[place]? = some b)
    (hlead : ¬ IsTail b) : ¬ Inside s place := by
  intro h
  obtain ⟨d, hd, htail⟩ := h.isTail
  rw [hb] at hd
  exact hlead (Option.some.inj hd ▸ htail)

/-- The bytes before a place inside a character end with a lead byte that asks for more than the
continuation bytes after it. -/
theorem Inside.before {s : List UInt8} {place : Nat} (h : Inside s place) :
    ∃ lead tails, lead :: tails <:+ s.take place ∧ (∀ b ∈ tails, IsTail b) ∧
      ∃ asked, Asks lead asked ∧ tails.length < asked := by
  obtain ⟨a, c, b, hc, rfl, hlow, hhigh⟩ := h
  obtain ⟨lead, tails, rfl, hasks, htails⟩ := hc.shape
  rw [List.length_cons] at hhigh
  obtain ⟨i, hi⟩ : ∃ i, place = a.length + (i + 1) := ⟨place - a.length - 1, by omega⟩
  refine ⟨lead, tails.take i, ⟨a, ?_⟩, fun d hd => htails d (List.mem_of_mem_take hd),
    tails.length, hasks, ?_⟩
  · rw [hi, List.take_length_add_append, List.cons_append, List.take_succ_cons,
      List.take_append_of_le_length (by omega)]
  · rw [List.length_take]
    omega

end Utf8
end Library
end OpenstackPlatform
