import Mathlib.Data.List.Basic

/-!
# A fragment of the `nft` language

Scripts that declare a table with base chains whose rules match the destination port of a TCP
packet, possibly its source address and the owner of its socket, and accept or drop it.  `lex` cuts
a text into words and punctuation, and refuses a character that no token has; `parse` reads the
commands.  How an address is written is a parameter.

A chain is read from the top: the first rule that matches a packet decides (`verdict`), and a packet
that no rule matches is left to the policy.  A packet to the host meets the chains of its hooks one
after the other (`fate`): what one of them drops is lost, and what it accepts goes on to the next.

A text whose last character ends a token can be lexed on its own, whatever follows (`Lexes`), so a
script that is built by concatenation is lexed piece by piece.
-/

namespace OpenstackPlatform
namespace Library
namespace Nft

/-! ## Tokens -/

inductive Token where
  | word (text : List Char)
  | openBrace
  | closeBrace
  | comma
  | semicolon
  | newline
  deriving DecidableEq

/-- The characters of words: names, numbers, addresses and operators. -/
def isWordChar (c : Char) : Bool :=
  c.isAlphanum || c = '_' || c = '-' || c = '.' || c = ':' || c = '!' || c = '='

/-- The characters that are tokens. -/
@[grind =] def punctuation : Char → Option Token
  | '\x7b' => some .openBrace
  | '\x7d' => some .closeBrace
  | ',' => some .comma
  | ';' => some .semicolon
  | '\n' => some .newline
  | _ => none

/-- Put a character in front of a word, or start one. -/
@[grind =] def prepend (c : Char) (continues : Bool) (ts : List Token) : List Token :=
  match continues, ts with
  | true, .word w :: ts => .word (c :: w) :: ts
  | _, ts => .word [c] :: ts

/-- Cut a text into tokens; words are as long as they can be. -/
@[grind =] def lex : List Char → Option (List Token)
  | [] => some []
  | c :: cs =>
    match lex cs with
    | none => none
    | some ts =>
      if c = ' ' then some ts
      else match punctuation c with
        | some t => some (t :: ts)
        | none => if isWordChar c then some (prepend c (cs.head?.any isWordChar) ts) else none

/-- A text that can be cut into tokens on its own, whatever follows it. -/
def Lexes (text : List Char) (ts : List Token) : Prop :=
  ∀ rest, lex (text ++ rest) = (lex rest).map (ts ++ ·)

theorem Lexes.append {a b : List Char} {ts us : List Token} (ha : Lexes a ts) (hb : Lexes b us) :
    Lexes (a ++ b) (ts ++ us) := by
  intro rest
  rw [List.append_assoc, ha, hb, Option.map_map]
  congr 1
  funext l
  exact (List.append_assoc ts us l).symm

theorem Lexes.nil : Lexes [] [] := by
  intro rest
  cases h : lex rest with
  | none => simp [h]
  | some ts => simp [h]

theorem Lexes.lex {text : List Char} {ts : List Token} (h : Lexes text ts) :
    lex text = some ts := by
  have hlex := h []
  rwa [List.append_nil, Nft.lex, Option.map_some, List.append_nil] at hlex

/-- The character of a word is neither a blank nor a token. -/
theorem of_isWordChar {c : Char} (h : isWordChar c = true) : c ≠ ' ' ∧ punctuation c = none := by
  constructor
  · rintro rfl
    cases h
  · unfold punctuation
    split
    all_goals first
      | rfl
      | cases h

/-- What starts with the character of a word starts with a word. -/
theorem word_of_lex {cs : List Char} {ts : List Token} (h : lex cs = some ts)
    (hhead : cs.head?.any isWordChar = true) : ∃ w us, ts = .word w :: us := by
  cases cs with
  | nil => cases hhead
  | cons c cs =>
    have hc : isWordChar c = true := by simpa using hhead
    obtain ⟨hspace, hpunctuation⟩ := of_isWordChar hc
    simp only [lex, if_neg hspace, hpunctuation, hc, if_true] at h
    split at h
    · cases h
    · cases h
      unfold prepend
      split
      · exact ⟨_, _, rfl⟩
      · exact ⟨_, _, rfl⟩

/-- A text whose last character ends a token is lexed on its own. -/
theorem lexes_of_lex {text : List Char} {ts : List Token} (h : lex text = some ts)
    (hlast : text.getLast?.any isWordChar = false) : Lexes text ts := by
  induction text generalizing ts with
  | nil =>
    cases h
    exact .nil
  | cons c cs ih =>
    rw [lex] at h
    cases hcs : lex cs with
    | none =>
      rw [hcs] at h
      cases h
    | some us =>
      have hlast' : cs.getLast?.any isWordChar = false := by
        cases cs with
        | nil => rfl
        | cons d ds => simpa only [List.getLast?_cons_cons] using hlast
      have hrest := ih hcs hlast'
      simp only [hcs] at h
      intro rest
      rw [List.cons_append, lex, hrest rest]
      cases hlex : lex rest with
      | none => simp
      | some vs =>
        simp only [Option.map_some]
        split at h
        next hspace =>
          cases h
          rw [if_pos hspace]
        next hspace =>
          rw [if_neg hspace]
          cases hp : punctuation c with
          | some t =>
            rw [hp] at h
            cases h
            rfl
          | none =>
            simp only [hp] at h
            split at h
            next hc =>
              cases h
              rw [if_pos hc]
              -- The character belongs to a word that goes on, or to one that ends inside the text.
              cases cs with
              | nil =>
                simp only [List.getLast?_singleton, Option.any_some] at hlast
                cases hlast.symm.trans hc
              | cons d ds =>
                simp only [List.cons_append, List.head?_cons]
                cases hd : (some d).any isWordChar with
                | false => rfl
                | true =>
                  obtain ⟨w, ws, rfl⟩ := word_of_lex hcs (by simpa using hd)
                  rfl
            next => cases h

/-- A word with something after it that ends it. -/
theorem lex_word_append {w rest : List Char} {ts : List Token} (hne : w ≠ [])
    (hw : ∀ c ∈ w, isWordChar c = true) (hrest : lex rest = some ts)
    (hhead : rest.head?.any isWordChar = false) : lex (w ++ rest) = some (.word w :: ts) := by
  induction w with
  | nil => exact absurd rfl hne
  | cons c w ih =>
    have hc := hw c List.mem_cons_self
    obtain ⟨hspace, hpunctuation⟩ := of_isWordChar hc
    cases w with
    | nil => simp [lex, hspace, hpunctuation, hc, prepend, hrest, hhead]
    | cons d w =>
      have hd := hw d (by simp)
      have hlex := ih (by simp) fun e he => hw e (List.mem_cons_of_mem c he)
      rw [List.cons_append, lex, hlex]
      simp [hspace, hpunctuation, hc, hd, prepend]

theorem lexes_word {w rest : List Char} {ts : List Token} (hne : w ≠ [])
    (hw : ∀ c ∈ w, isWordChar c = true) (hrest : lex rest = some ts)
    (hhead : rest.head?.any isWordChar = false) (hlast : rest.getLast?.any isWordChar = false)
    (hrest' : rest ≠ []) : Lexes (w ++ rest) (.word w :: ts) := by
  refine lexes_of_lex (lex_word_append hne hw hrest hhead) ?_
  rw [List.getLast?_append_of_ne_nil w hrest']
  exact hlast

/-- Pieces one after the other. -/
theorem lexes_flatMap {β : Type} {xs : List β} {text : β → List Char} {tokens : β → List Token}
    (h : ∀ x ∈ xs, Lexes (text x) (tokens x)) : Lexes (xs.flatMap text) (xs.flatMap tokens) := by
  induction xs with
  | nil => exact .nil
  | cons x xs ih =>
    rw [List.flatMap_cons, List.flatMap_cons]
    exact (h x List.mem_cons_self).append (ih fun y hy => h y (List.mem_cons_of_mem x hy))

/-- A character that no token has. -/
theorem lex_eq_none {text : List Char} {c : Char} (hmem : c ∈ text) (hspace : c ≠ ' ')
    (hpunctuation : punctuation c = none) (hc : isWordChar c = false) : lex text = none := by
  induction text with
  | nil => cases hmem
  | cons d text ih =>
    rcases List.mem_cons.mp hmem with rfl | hmem
    · rw [lex]
      cases lex text with
      | none => rfl
      | some ts => simp [hspace, hpunctuation, hc]
    · rw [lex, ih hmem]

/-! ## Scripts -/

inductive Family where
  | ip
  | ip6
  deriving DecidableEq

inductive Verdict where
  | accept
  | drop
  deriving DecidableEq

/-- A rule: the destination ports, the source addresses if they matter, the owner that a socket must
not have if that matters, and the verdict. -/
structure Rule (α : Type) where
  ports : List Nat
  sources : Option (Family × List α)
  notOwner : Option Nat
  verdict : Verdict
  deriving DecidableEq

/-- A base chain with its hook; the policy is `accept`. -/
structure Chain (α : Type) where
  name : List Char
  hook : List Char
  priority : List Char
  rules : List (Rule α)
  deriving DecidableEq

/-- The commands of a script. -/
inductive Command (α : Type) where
  | add (table : List Char)
  | flush (table : List Char)
  | table (name : List Char) (chains : List (Chain α))
  deriving DecidableEq

section Parser

variable {α : Type} (address : Family → List Char → Option α)

/-- A decimal number. -/
def parseNumber (w : List Char) : Option Nat :=
  if w.isEmpty || !w.all Char.isDigit then none else some (Nat.ofDigitChars 10 w 0)

/-- The elements of a set, after its opening brace. -/
def parseElements : List Token → Option (List (List Char) × List Token)
  | .word w :: .comma :: ts => (parseElements ts).map fun r => (w :: r.1, r.2)
  | .word w :: .closeBrace :: ts => some ([w], ts)
  | _ => none

/-- The elements of a set, as tokens. -/
def elements : List (List Char) → List Token
  | [] => []
  | [w] => [.word w]
  | w :: ws => .word w :: .comma :: elements ws

theorem parseElements_elements (ws : List (List Char)) (hws : ws ≠ []) (ts : List Token) :
    parseElements (elements ws ++ .closeBrace :: ts) = some (ws, ts) := by
  induction ws with
  | nil => exact absurd rfl hws
  | cons w ws ih =>
    cases ws with
    | nil => rfl
    | cons w' ws =>
      simp only [elements, List.cons_append, parseElements, ih (by simp), Option.map_some]

/-- The elements of a set, joined by commas, with a blank after them. -/
theorem lexes_elements {ws : List (List Char)}
    (hws : ∀ w ∈ ws, w ≠ [] ∧ ∀ c ∈ w, isWordChar c = true) (hne : ws ≠ []) :
    Lexes (List.intercalate [',', ' '] ws ++ [' ']) (elements ws) := by
  induction ws with
  | nil => exact absurd rfl hne
  | cons w ws ih =>
    obtain ⟨hw, hchars⟩ := hws w List.mem_cons_self
    cases ws with
    | nil =>
      have htext : List.intercalate [',', ' '] [w] = w := by simp [List.intercalate]
      rw [htext]
      exact lexes_word hw hchars rfl (by decide) (by decide) (by simp)
    | cons w' ws =>
      have htext : List.intercalate [',', ' '] (w :: w' :: ws) ++ [' '] =
          (w ++ [',', ' ']) ++ (List.intercalate [',', ' '] (w' :: ws) ++ [' ']) := by
        simp [List.intercalate, List.intersperse]
      have hfirst : Lexes (w ++ [',', ' ']) [.word w, .comma] :=
        lexes_word hw hchars rfl (by decide) (by decide) (by simp)
      rw [htext]
      exact hfirst.append (ih (fun v hv => hws v (List.mem_cons_of_mem w hv)) (by simp))

theorem parseNumber_toDigits (n : Nat) : parseNumber (Nat.toDigits 10 n) = some n := by
  have hall : (Nat.toDigits 10 n).all Char.isDigit = true :=
    List.all_eq_true.mpr fun c hc => Nat.isDigit_of_mem_toDigits (by decide) (by decide) hc
  unfold parseNumber
  rw [if_neg, Nat.ofDigitChars_ten_toDigits]
  simp [hall, Nat.toDigits_ne_nil]

/-- One value, or a set of values. -/
def parseValues : List Token → Option (List (List Char) × List Token)
  | .openBrace :: ts => parseElements ts
  | .word w :: ts => some ([w], ts)
  | _ => none

/-- `tcp dport …` -/
def parsePorts : List Token → Option (List Nat × List Token)
  | .word tcp :: .word dport :: ts =>
    if tcp = "tcp".toList ∧ dport = "dport".toList then
      (parseValues ts).bind fun r => (r.1.mapM parseNumber).map fun ports => (ports, r.2)
    else none
  | _ => none

/-- The family that a word names. -/
def familyOf (w : List Char) : Option Family :=
  if w = "ip".toList then some .ip else if w = "ip6".toList then some .ip6 else none

/-- `ip saddr …` or `ip6 saddr …`, if it is there. -/
def parseSources : List Token → Option (Option (Family × List α) × List Token)
  | .word family :: .word saddr :: ts =>
    if saddr = "saddr".toList then
      (familyOf family).bind fun f => (parseValues ts).bind fun r =>
        (r.1.mapM (address f)).map fun sources => (some (f, sources), r.2)
    else some (none, .word family :: .word saddr :: ts)
  | ts => some (none, ts)

/-- `meta skuid != …`, if it is there. -/
def parseOwner : List Token → Option (Option Nat × List Token)
  | .word key :: .word skuid :: .word operator :: .word owner :: ts =>
    if key = "meta".toList ∧ skuid = "skuid".toList ∧ operator = "!=".toList then
      (parseNumber owner).map fun n => (some n, ts)
    else some (none, .word key :: .word skuid :: .word operator :: .word owner :: ts)
  | ts => some (none, ts)

theorem parseOwner_of_ne (key : List Char) (h : key ≠ "meta".toList) (ts : List Token) :
    parseOwner (.word key :: ts) = some (none, .word key :: ts) := by
  unfold parseOwner
  split
  next heq =>
    obtain ⟨hkey, -⟩ := List.cons.inj heq
    rw [if_neg fun hall => h ((Token.word.inj hkey).trans hall.1), heq]
  next => rfl

/-- `accept` or `counter drop` -/
def parseVerdict : List Token → Option (Verdict × List Token)
  | .word w :: ts =>
    if w = "accept".toList then some (.accept, ts)
    else match ts with
      | .word w' :: ts' =>
        if w = "counter".toList ∧ w' = "drop".toList then some (.drop, ts') else none
      | _ => none
  | _ => none

/-- One rule. -/
def parseRule (ts : List Token) : Option (Rule α × List Token) :=
  (parsePorts ts).bind fun r₁ => (parseSources address r₁.2).bind fun r₂ =>
    (parseOwner r₂.2).bind fun r₃ => (parseVerdict r₃.2).map fun r₄ =>
      (⟨r₁.1, r₂.1, r₃.1, r₄.1⟩, r₄.2)

/-- The rules of a chain, each on a line, up to the closing brace. -/
def parseRules : Nat → List Token → Option (List (Rule α) × List Token)
  | 0, _ => none
  | _ + 1, .closeBrace :: ts => some ([], ts)
  | fuel + 1, .newline :: ts => parseRules fuel ts
  | fuel + 1, ts =>
    (parseRule address ts).bind fun r =>
      match r.2 with
      | .newline :: ts' => (parseRules fuel ts').map fun r' => (r.1 :: r'.1, r'.2)
      | _ => none

/-- Tokens that are read as one rule, whatever follows them. -/
structure Reads (ts : List Token) (rule : Rule α) : Prop where
  word : ∃ w us, ts = .word w :: us
  rule : ∀ rest, parseRule address (ts ++ rest) = some (rule, rest)

/-- Rules on lines of their own are read one by one. -/
theorem parseRules_lines {β : Type} {lines : List β} {tokens : β → List Token} {rule : β → Rule α}
    (h : ∀ l ∈ lines, Reads address (tokens l) (rule l)) (rest : List Token) {fuel : Nat}
    (hfuel : lines.length < fuel) :
    parseRules address fuel (lines.flatMap (fun l => tokens l ++ [.newline]) ++
      .closeBrace :: rest) = some (lines.map rule, rest) := by
  induction lines generalizing fuel with
  | nil =>
    obtain ⟨n, rfl⟩ : ∃ n, fuel = n + 1 := ⟨fuel - 1, by simp at hfuel; omega⟩
    rfl
  | cons l lines ih =>
    simp only [List.length_cons] at hfuel
    obtain ⟨n, rfl⟩ : ∃ n, fuel = n + 1 := ⟨fuel - 1, by omega⟩
    obtain ⟨⟨w, us, hword⟩, hrule⟩ := h l List.mem_cons_self
    have hrest := ih (fun m hm => h m (List.mem_cons_of_mem l hm)) (by omega : lines.length < n)
    rw [List.flatMap_cons, List.append_assoc, List.append_assoc]
    have hparse := hrule ([.newline] ++ (lines.flatMap (fun l => tokens l ++ [.newline]) ++
      .closeBrace :: rest))
    rw [hword] at hparse ⊢
    simp only [List.cons_append, parseRules] at hparse ⊢
    rw [hparse]
    simp only [Option.bind_some, List.nil_append, hrest, Option.map_some, List.map_cons]

/-- `type filter hook … priority …; policy accept;` -/
def parseHook : List Token → Option ((List Char × List Char) × List Token)
  | .word type :: .word filter :: .word hook :: .word name :: .word priority :: .word number ::
      .semicolon :: .word policy :: .word accept :: .semicolon :: ts =>
    if type = "type".toList ∧ filter = "filter".toList ∧ hook = "hook".toList ∧
        priority = "priority".toList ∧ policy = "policy".toList ∧ accept = "accept".toList then
      some ((name, number), ts)
    else none
  | _ => none

/-- The chains of a table, up to the closing brace. -/
def parseChains : Nat → List Token → Option (List (Chain α) × List Token)
  | 0, _ => none
  | _ + 1, .closeBrace :: ts => some ([], ts)
  | fuel + 1, .newline :: ts => parseChains fuel ts
  | fuel + 1, .word chain :: .word name :: .openBrace :: ts =>
    if chain = "chain".toList then
      (parseHook ts).bind fun r₁ => (parseRules address r₁.2.length r₁.2).bind fun r₂ =>
        (parseChains fuel r₂.2).map fun r₃ => (⟨name, r₁.1.1, r₁.1.2, r₂.1⟩ :: r₃.1, r₃.2)
    else none
  | _, _ => none

/-- The commands of a script. -/
def parseCommands : Nat → List Token → Option (List (Command α))
  | _, [] => some []
  | 0, _ => none
  | fuel + 1, .newline :: ts => parseCommands fuel ts
  | fuel + 1, .word verb :: .word table :: .word inet :: .word name :: .newline :: ts =>
    if table = "table".toList ∧ inet = "inet".toList then
      if verb = "add".toList then (parseCommands fuel ts).map (.add name :: ·)
      else if verb = "flush".toList then (parseCommands fuel ts).map (.flush name :: ·)
      else none
    else none
  | fuel + 1, .word table :: .word inet :: .word name :: .openBrace :: ts =>
    if table = "table".toList ∧ inet = "inet".toList then
      (parseChains address ts.length ts).bind fun r =>
        (parseCommands fuel r.2).map (.table name r.1 :: ·)
    else none
  | _, _ => none

/-- Read a script. -/
def parse (text : List Char) : Option (List (Command α)) :=
  (lex text).bind fun ts => parseCommands address ts.length ts

end Parser

/-! ## Meaning -/

/-- A TCP packet, with the owner of its socket where there is one. -/
structure Packet (α : Type) where
  port : Nat
  source : α
  owner : Option Nat

variable {α : Type} [DecidableEq α]

/-- Whether a rule matches a packet. -/
def Rule.applies (rule : Rule α) (packet : Packet α) : Bool :=
  rule.ports.contains packet.port && rule.sources.all (fun s => s.2.contains packet.source) &&
    rule.notOwner.all fun owner => packet.owner.any (· ≠ owner)

/-- The first rule that matches decides. -/
def verdict (rules : List (Rule α)) (packet : Packet α) : Option Verdict :=
  (rules.find? fun rule => rule.applies packet).map Rule.verdict

theorem verdict_append (a b : List (Rule α)) (packet : Packet α) :
    verdict (a ++ b) packet = (verdict a packet).or (verdict b packet) := by
  unfold verdict
  rw [List.find?_append]
  cases a.find? fun rule => rule.applies packet with
  | none => rfl
  | some rule => rfl

/-- Rules of one verdict give it to the packets that one of them matches. -/
theorem verdict_of_forall {rules : List (Rule α)} {v : Verdict} (h : ∀ rule ∈ rules, rule.verdict = v)
    (packet : Packet α) :
    verdict rules packet = if ∃ rule ∈ rules, rule.applies packet = true then some v else none := by
  unfold verdict
  cases hfind : rules.find? fun rule => rule.applies packet with
  | none =>
    have hnone := List.find?_eq_none.mp hfind
    rw [if_neg]
    · rfl
    · rintro ⟨rule, hrule, happlies⟩
      exact hnone rule hrule happlies
  | some rule =>
    have hrule := List.mem_of_find?_eq_some hfind
    have happlies : rule.applies packet = true := by simpa using List.find?_some hfind
    rw [if_pos ⟨rule, hrule, happlies⟩, Option.map_some, h rule hrule]

/-- The hooks that a packet to the host meets, in order: one that a process of the host sends goes
out before it comes in. -/
def Packet.hooks (packet : Packet α) : List (List Char) :=
  if packet.owner.isSome then ["output".toList, "input".toList] else ["input".toList]

/-- The chains that a packet meets. -/
def chainsMet (chains : List (Chain α)) (packet : Packet α) : List (Chain α) :=
  packet.hooks.flatMap fun hook => chains.filter fun chain => chain.hook = hook

/-- What the chains make of a packet: a drop is final, and a packet that a chain accepts goes on to
the next one. -/
def fate (chains : List (Chain α)) (packet : Packet α) : Option Verdict :=
  let verdicts := (chainsMet chains packet).filterMap fun chain => verdict chain.rules packet
  if verdicts.contains .drop then some .drop else verdicts.head?

/-- The only chain that a packet meets decides. -/
theorem fate_single {chains : List (Chain α)} {packet : Packet α} {chain : Chain α}
    (hmet : chainsMet chains packet = [chain]) :
    fate chains packet = verdict chain.rules packet := by
  rw [fate, hmet]
  cases hverdict : verdict chain.rules packet with
  | none => simp only [List.filterMap_cons, hverdict, List.filterMap_nil]; rfl
  | some v =>
    simp only [List.filterMap_cons, hverdict, List.filterMap_nil]
    cases v <;> rfl

/-- A chain that accepts nothing, before another one. -/
theorem fate_pair {chains : List (Chain α)} {packet : Packet α} {first second : Chain α}
    (hmet : chainsMet chains packet = [first, second])
    (hfirst : verdict first.rules packet ≠ some .accept) :
    fate chains packet = (verdict first.rules packet).or (verdict second.rules packet) := by
  rw [fate, hmet]
  cases hverdict : verdict first.rules packet with
  | none =>
    rw [Option.none_or]
    cases hsecond : verdict second.rules packet with
    | none => simp only [List.filterMap_cons, hverdict, hsecond, List.filterMap_nil]; rfl
    | some v =>
      simp only [List.filterMap_cons, hverdict, hsecond, List.filterMap_nil]
      cases v <;> rfl
  | some v =>
    cases v with
    | accept => exact absurd hverdict hfirst
    | drop =>
      simp only [List.filterMap_cons, hverdict, List.contains_cons, beq_self_eq_true, Bool.true_or,
        if_true, Option.some_or]

/-- The chains of a script. -/
def chainsOf (commands : List (Command α)) : List (Chain α) :=
  commands.flatMap fun
    | .table _ chains => chains
    | _ => []

end Nft
end Library
end OpenstackPlatform
