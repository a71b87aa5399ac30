import OpenstackPlatform.Library.Nftables
import OpenstackPlatform.StorageInstances.Firewall
import OpenstackPlatform.StorageInstances.IpAddressText

/-!
# What the firewall script says

The script that `Manager.firewall` builds, as the text of its lines (`scriptText`), and what `nft`
reads in it: the lines are cut into tokens (`lex_scriptText`) and the tokens are one table with two
chains, whose rules are those of the lines (`parseCommands_scriptTokens`).  A line can be read when
it names something and its addresses are words of its family (`Line.Good`).
-/

namespace OpenstackPlatform
namespace StorageInstances

open Library

/-! ## The template -/

/-- An address as `nft` reads it: of the family that the rule names, and without a scope ID. -/
def nftAddress : Nft.Family → List Char → Option IpAddress
  | .ip, w => match IpAddress.parse w with
    | some (.v4 octets) => some (.v4 octets)
    | _ => none
  | .ip6, w => match IpAddress.parse w with
    | some (.v6 hextets none) => some (.v6 hextets none)
    | _ => none

/-- Whether an address has no scope ID. -/
def IpAddress.unscoped : IpAddress → Bool
  | .v4 _ => true
  | .v6 _ scopeId => scopeId.isNone

/-- The addresses that the texts of one family name. -/
def named (family : Nft.Family) (values : List String) : List IpAddress :=
  values.filterMap fun value => nftAddress family value.toList

/-- A line of a chain: the addresses of one family that a port accepts, or the ports that are
dropped. -/
inductive Line where
  | accept (port : Nat) (family : Nft.Family) (values : List String)
  | drop (ports : List Nat) (fresh : Bool)

/-- The name of an address family. -/
def familyName : Nft.Family → String
  | .ip => "ip"
  | .ip6 => "ip6"

namespace Line

/-- The line as the source writes it. -/
def text : Line → String
  | accept port family values =>
    "tcp dport " ++ toString port ++ " " ++ familyName family ++
      " saddr \x7b " ++ ", ".intercalate values ++ " \x7d accept"
  | drop ports fresh =>
    "tcp dport \x7b " ++ ", ".intercalate (ports.map toString) ++ " \x7d " ++
      (if fresh then "meta skuid != 0 " else "") ++ "counter drop"

theorem text_accept (port : Nat) (family : Nft.Family) (values : List String) :
    (accept port family values).text = "tcp dport " ++ toString port ++ " " ++ familyName family ++
      " saddr \x7b " ++ ", ".intercalate values ++ " \x7d accept" := rfl

theorem text_drop (ports : List Nat) (fresh : Bool) :
    (drop ports fresh).text = "tcp dport \x7b " ++ ", ".intercalate (ports.map toString) ++
      " \x7d " ++ (if fresh then "meta skuid != 0 " else "") ++ "counter drop" := rfl

/-- The rule that the line is meant to be. -/
def rule : Line → Nft.Rule IpAddress
  | accept port family values => ⟨[port], some (family, named family values), none, .accept⟩
  | drop ports fresh => ⟨ports, none, if fresh then some 0 else none, .drop⟩

end Line

/-- The texts of one family, in order. -/
def familyTexts (v6 : Bool) (values : List String) : List String :=
  sortedSet (values.filter fun value => value.toList.contains ':' == v6)

/-- The line of one family, if it has an address. -/
def acceptLine (port : Nat) (family : Nft.Family) (values : List String) : List Line :=
  if values.isEmpty then [] else [.accept port family values]

/-- The lines of one instance. -/
def acceptLines (port : Nat) (values : List String) : List Line :=
  acceptLine port .ip (familyTexts false values) ++ acceptLine port .ip6 (familyTexts true values)

/-- The line that drops what goes to some ports. -/
def dropLine (ports : List Nat) (fresh : Bool) : List Line :=
  if ports.isEmpty then [] else [.drop ports fresh]

/-- The ports of the instances whose database has no administrator yet. -/
def freshPorts (configs : List Config) : List Nat :=
  (configs.filter fun config => config.engine = .mongo && !config.adminInitialized).map Config.port

/-- The chain for packets to the instances, from the texts of the addresses that each admits. -/
def ingress (admits : List (Config × List String)) : List Line :=
  (admits.flatMap fun e => acceptLines e.1.port e.2) ++
    dropLine (sortedPorts (admits.map fun e => e.1)) false

/-- The chain for packets to databases without an administrator. -/
def bootstrap (configs : List Config) : List Line := dropLine (freshPorts configs) true

/-- The whole script. -/
def template (table : String) (admits : List (Config × List String)) :
    List (Nft.Command IpAddress) :=
  [.add table.toList, .flush table.toList,
    .table table.toList
      [⟨"ingress".toList, "input".toList, "-50".toList, (ingress admits).map Line.rule⟩,
        ⟨"bootstrap".toList, "output".toList, "-50".toList,
          (bootstrap (admits.map fun e => e.1)).map Line.rule⟩]]

/-! ## The lines as text -/

/-- A text that `nft` can have as a word. -/
def Word (value : String) : Prop :=
  value.toList ≠ [] ∧ ∀ c ∈ value.toList, Nft.isWordChar c = true

/-- The line as tokens. -/
def Line.tokens : Line → List Nft.Token
  | accept port family values =>
    [.word "tcp".toList, .word "dport".toList, .word (Nat.toDigits 10 port),
      .word (familyName family).toList, .word "saddr".toList, .openBrace] ++
      Nft.elements (values.map String.toList) ++ [.closeBrace, .word "accept".toList]
  | drop ports fresh =>
    [.word "tcp".toList, .word "dport".toList, .openBrace] ++
      Nft.elements (ports.map (Nat.toDigits 10)) ++ [.closeBrace] ++
      (if fresh then [.word "meta".toList, .word "skuid".toList, .word "!=".toList,
        .word "0".toList] else []) ++ [.word "counter".toList, .word "drop".toList]

theorem isWordChar_of_isAlphanum {c : Char} (h : c.isAlphanum = true) :
    Nft.isWordChar c = true := by
  unfold Nft.isWordChar
  rw [h]
  rfl

theorem isWordChar_of_isHex {c : Char} (h : IpAddress.isHex c = true) :
    Nft.isWordChar c = true := by
  refine isWordChar_of_isAlphanum ?_
  unfold Char.isAlphanum Char.isAlpha
  simp only [IpAddress.isHex, Bool.or_eq_true, Bool.and_eq_true, decide_eq_true_eq] at h ⊢
  rcases h with (hdigit | ⟨hlow, hhigh⟩) | ⟨hlow, hhigh⟩
  · exact .inr hdigit
  · have hz : c.val ≤ 'z'.val := UInt32.le_trans hhigh (by decide)
    refine .inl (.inr ?_)
    show (decide ('a'.val ≤ c.val) && decide (c.val ≤ 'z'.val)) = true
    rw [decide_eq_true (show 'a'.val ≤ c.val from hlow), decide_eq_true hz]
    rfl
  · have hz : c.val ≤ 'Z'.val := UInt32.le_trans hhigh (by decide)
    refine .inl (.inl ?_)
    exact decide_eq_true ⟨hlow, hz⟩

theorem isWordChar_toDigits (n : Nat) : ∀ c ∈ Nat.toDigits 10 n, Nft.isWordChar c = true := by
  intro c hc
  have hdigit := Nat.isDigit_of_mem_toDigits (by decide) (by decide) hc
  exact isWordChar_of_isAlphanum (by rw [Char.isAlphanum, hdigit, Bool.or_true])

theorem toList_toString (n : Nat) : (toString n).toList = Nat.toDigits 10 n := Nat.toList_repr

/-- A number with a blank after it. -/
theorem lexes_number (n : Nat) :
    Nft.Lexes (Nat.toDigits 10 n ++ " ".toList) [.word (Nat.toDigits 10 n)] :=
  Nft.lexes_word Nat.toDigits_ne_nil (isWordChar_toDigits n) rfl (by decide) (by decide) (by decide)

/-- Values of a set with a blank after them. -/
theorem lexes_values {ws : List (List Char)} (hne : ws ≠ [])
    (hws : ∀ w ∈ ws, w ≠ [] ∧ ∀ c ∈ w, Nft.isWordChar c = true) :
    Nft.Lexes (List.intercalate ", ".toList ws ++ " ".toList) (Nft.elements ws) :=
  Nft.lexes_elements hws hne

variable {family : Nft.Family} {values : List String}

theorem lexes_accept {port : Nat} (hne : values ≠ []) (hvalues : ∀ value ∈ values, Word value) :
    Nft.Lexes ((Line.accept port family values).text.toList ++ "\n".toList)
      ((Line.accept port family values).tokens ++ [.newline]) := by
  have hhead : Nft.Lexes "tcp dport ".toList [.word "tcp".toList, .word "dport".toList] :=
    Nft.lexes_of_lex (by decide) (by decide)
  have hfamily : Nft.Lexes ((familyName family).toList ++ " saddr \x7b ".toList)
      [.word (familyName family).toList, .word "saddr".toList, .openBrace] := by
    cases family with
    | ip => exact Nft.lexes_of_lex (by decide) (by decide)
    | ip6 => exact Nft.lexes_of_lex (by decide) (by decide)
  have helements : Nft.Lexes
      (List.intercalate ", ".toList (values.map String.toList) ++ " ".toList)
      (Nft.elements (values.map String.toList)) := by
    refine lexes_values (by simpa using hne) fun w hw => ?_
    obtain ⟨value, hvalue, rfl⟩ := List.mem_map.mp hw
    exact hvalues value hvalue
  have htail : Nft.Lexes ("\x7d accept".toList ++ "\n".toList)
      [.closeBrace, .word "accept".toList, .newline] :=
    Nft.lexes_of_lex (by decide) (by decide)
  have hall := hhead.append ((lexes_number port).append (hfamily.append (helements.append htail)))
  have hsplit : " \x7d accept".toList = " ".toList ++ "\x7d accept".toList := rfl
  rw [Line.text_accept]
  simp only [String.toList_append, String.toList_intercalate, toList_toString, hsplit,
    List.append_assoc] at hall ⊢
  simp only [Line.tokens, List.append_assoc, List.cons_append, List.nil_append] at hall ⊢
  exact hall

theorem lexes_drop {ports : List Nat} {fresh : Bool} (hne : ports ≠ []) :
    Nft.Lexes ((Line.drop ports fresh).text.toList ++ "\n".toList)
      ((Line.drop ports fresh).tokens ++ [.newline]) := by
  have hhead : Nft.Lexes "tcp dport \x7b ".toList
      [.word "tcp".toList, .word "dport".toList, .openBrace] :=
    Nft.lexes_of_lex (by decide) (by decide)
  have helements : Nft.Lexes
      (List.intercalate ", ".toList (ports.map (Nat.toDigits 10)) ++ " ".toList)
      (Nft.elements (ports.map (Nat.toDigits 10))) := by
    refine lexes_values (by simpa using hne) fun w hw => ?_
    obtain ⟨port, -, rfl⟩ := List.mem_map.mp hw
    exact ⟨Nat.toDigits_ne_nil, isWordChar_toDigits port⟩
  have hbrace : Nft.Lexes "\x7d ".toList [.closeBrace] :=
    Nft.lexes_of_lex (by decide) (by decide)
  have howner : Nft.Lexes (if fresh then "meta skuid != 0 " else "").toList
      (if fresh then [.word "meta".toList, .word "skuid".toList, .word "!=".toList,
        .word "0".toList] else []) := by
    cases fresh with
    | true => exact Nft.lexes_of_lex (by decide) (by decide)
    | false => exact .nil
  have htail : Nft.Lexes ("counter drop".toList ++ "\n".toList)
      [.word "counter".toList, .word "drop".toList, .newline] :=
    Nft.lexes_of_lex (by decide) (by decide)
  have hall := hhead.append (helements.append (hbrace.append (howner.append htail)))
  have hsplit : " \x7d ".toList = " ".toList ++ "\x7d ".toList := rfl
  have hports : (ports.map toString).map String.toList = ports.map (Nat.toDigits 10) := by
    rw [List.map_map]
    exact List.map_congr_left fun port _ => toList_toString port
  rw [Line.text_drop]
  simp only [String.toList_append, String.toList_intercalate, hports, hsplit,
    List.append_assoc] at hall ⊢
  simp only [Line.tokens, List.append_assoc, List.cons_append, List.nil_append] at hall ⊢
  exact hall

/-! ## The lines as rules -/

theorem familyOf_familyName (family : Nft.Family) :
    Nft.familyOf (familyName family).toList = some family := by
  cases family
  all_goals decide

theorem mapM_nftAddress (h : ∀ value ∈ values, (nftAddress family value.toList).isSome) :
    (values.map String.toList).mapM (nftAddress family) = some (named family values) := by
  induction values with
  | nil => rfl
  | cons value values ih =>
    obtain ⟨a, ha⟩ := Option.isSome_iff_exists.mp (h value List.mem_cons_self)
    have hrest := ih fun v hv => h v (List.mem_cons_of_mem value hv)
    simp only [List.map_cons, List.mapM_cons, ha, hrest, named, List.filterMap_cons,
      Option.bind_eq_bind, Option.bind_some, Option.pure_def]

theorem mapM_parseNumber (ports : List Nat) :
    (ports.map (Nat.toDigits 10)).mapM Nft.parseNumber = some ports :=
  mapM_map_of_inverse fun port _ => Nft.parseNumber_toDigits port

theorem reads_accept {port : Nat} (hne : values ≠ [])
    (hvalues : ∀ value ∈ values, (nftAddress family value.toList).isSome) :
    Nft.Reads nftAddress (Line.accept port family values).tokens
      (Line.accept port family values).rule where
  word := ⟨_, _, rfl⟩
  rule rest := by
    have hports : Nft.parsePorts ((Line.accept port family values).tokens ++ rest) =
        some ([port], .word (familyName family).toList :: .word "saddr".toList :: .openBrace ::
          (Nft.elements (values.map String.toList) ++
            .closeBrace :: .word "accept".toList :: rest)) := by
      have hnumber : [Nat.toDigits 10 port].mapM Nft.parseNumber = some [port] :=
        mapM_parseNumber [port]
      simp only [Line.tokens, List.append_assoc, List.cons_append, List.nil_append, Nft.parsePorts,
        and_self, if_true, Nft.parseValues, Option.bind_some, hnumber, Option.map_some]
    have hsources : Nft.parseSources nftAddress (.word (familyName family).toList ::
        .word "saddr".toList :: .openBrace :: (Nft.elements (values.map String.toList) ++
          .closeBrace :: .word "accept".toList :: rest)) =
        some (some (family, named family values), .word "accept".toList :: rest) := by
      have helements := Nft.parseElements_elements (values.map String.toList)
        (by simpa using hne) (.word "accept".toList :: rest)
      simp only [Nft.parseSources, if_true, familyOf_familyName, Option.bind_some, Nft.parseValues,
        helements, mapM_nftAddress hvalues, Option.map_some]
    have howner := Nft.parseOwner_of_ne "accept".toList (by decide) rest
    have hverdict : Nft.parseVerdict (.word "accept".toList :: rest) = some (.accept, rest) := by
      simp only [Nft.parseVerdict, if_true]
    simp only [Nft.parseRule, hports, hsources, howner, hverdict, Option.bind_some,
      Option.map_some, Line.rule]

theorem reads_drop {ports : List Nat} {fresh : Bool} (hne : ports ≠ []) :
    Nft.Reads nftAddress (Line.drop ports fresh).tokens (Line.drop ports fresh).rule where
  word := ⟨_, _, rfl⟩
  rule rest := by
    have hports : ∀ ts, Nft.parsePorts (.word "tcp".toList :: .word "dport".toList :: .openBrace ::
        (Nft.elements (ports.map (Nat.toDigits 10)) ++ .closeBrace :: ts)) = some (ports, ts) := by
      intro ts
      have helements := Nft.parseElements_elements (ports.map (Nat.toDigits 10))
        (by simpa using hne) ts
      simp only [Nft.parsePorts, and_self, if_true, Nft.parseValues, helements, Option.bind_some,
        mapM_parseNumber, Option.map_some]
    have hsources : ∀ (w w' : List Char) (ts : List Nft.Token), w' ≠ "saddr".toList →
        Nft.parseSources nftAddress (.word w :: .word w' :: ts) =
          some (none, .word w :: .word w' :: ts) := by
      intro w w' ts hw'
      simp only [Nft.parseSources, if_neg hw']
    have hverdict : Nft.parseVerdict (.word "counter".toList :: .word "drop".toList :: rest) =
        some (.drop, rest) := by
      have hne : "counter".toList ≠ "accept".toList := by decide
      simp only [Nft.parseVerdict, if_neg hne, and_self, if_true]
    cases fresh with
    | true =>
      have howner : Nft.parseOwner (.word "meta".toList :: .word "skuid".toList ::
          .word "!=".toList :: .word "0".toList :: .word "counter".toList :: .word "drop".toList ::
          rest) = some (some 0, .word "counter".toList :: .word "drop".toList :: rest) := by
        have hzero : Nft.parseNumber "0".toList = some 0 := Nft.parseNumber_toDigits 0
        simp only [Nft.parseOwner, and_self, if_true, hzero, Option.map_some]
      have htokens : (Line.drop ports true).tokens ++ rest =
          .word "tcp".toList :: .word "dport".toList :: .openBrace ::
            (Nft.elements (ports.map (Nat.toDigits 10)) ++ .closeBrace ::
              .word "meta".toList :: .word "skuid".toList :: .word "!=".toList ::
              .word "0".toList :: .word "counter".toList :: .word "drop".toList :: rest) := by
        simp only [Line.tokens, if_true, List.append_assoc, List.cons_append, List.nil_append]
      rw [htokens, Nft.parseRule, hports, Option.bind_some, hsources _ _ _ (by decide),
        Option.bind_some, howner, Option.bind_some, hverdict]
      rfl
    | false =>
      have howner := Nft.parseOwner_of_ne "counter".toList (by decide)
        (.word "drop".toList :: rest)
      have htokens : (Line.drop ports false).tokens ++ rest =
          .word "tcp".toList :: .word "dport".toList :: .openBrace ::
            (Nft.elements (ports.map (Nat.toDigits 10)) ++ .closeBrace ::
              .word "counter".toList :: .word "drop".toList :: rest) := by
        simp only [Line.tokens, Bool.false_eq_true, if_false, List.append_assoc, List.cons_append,
          List.nil_append]
      rw [htokens, Nft.parseRule, hports, Option.bind_some, hsources _ _ _ (by decide),
        Option.bind_some, howner, Option.bind_some, hverdict]
      rfl

/-! ## The script -/

/-- What the lines of a chain are when they can be read. -/
structure Line.Good (line : Line) : Prop where
  lexes : Nft.Lexes (line.text.toList ++ "\n".toList) (line.tokens ++ [.newline])
  reads : Nft.Reads nftAddress line.tokens line.rule

theorem good_acceptLine {port : Nat}
    (h : ∀ value ∈ values, Word value ∧ (nftAddress family value.toList).isSome) :
    ∀ line ∈ acceptLine port family values, line.Good := by
  unfold acceptLine
  split
  · exact fun line hline => absurd hline (by simp)
  next hne =>
    have hne' : values ≠ [] := by simpa using hne
    intro line hline
    rw [List.mem_singleton.mp hline]
    exact ⟨lexes_accept hne' fun v hv => (h v hv).1, reads_accept hne' fun v hv => (h v hv).2⟩

theorem good_dropLine (ports : List Nat) (fresh : Bool) :
    ∀ line ∈ dropLine ports fresh, line.Good := by
  unfold dropLine
  split
  · exact fun line hline => absurd hline (by simp)
  next hne =>
    have hne' : ports ≠ [] := by simpa using hne
    intro line hline
    rw [List.mem_singleton.mp hline]
    exact ⟨lexes_drop hne', reads_drop hne'⟩

/-- The tokens of a chain's head after its name. -/
def hookTokens (hook : List Char) : List Nft.Token :=
  [.openBrace, .word "type".toList, .word "filter".toList, .word "hook".toList, .word hook,
    .word "priority".toList, .word "-50".toList, .semicolon, .word "policy".toList,
    .word "accept".toList, .semicolon, .newline]

/-- The lines of a chain as tokens. -/
def linesTokens (lines : List Line) : List Nft.Token :=
  lines.flatMap fun line => line.tokens ++ [.newline]

theorem length_le_linesTokens (lines : List Line) : lines.length ≤ (linesTokens lines).length := by
  unfold linesTokens
  induction lines with
  | nil => simp
  | cons line lines ih =>
    rw [List.flatMap_cons, List.length_append, List.length_append, List.length_cons]
    simp only [List.length_singleton]
    omega

/-- One chain of the table is read as the rules of its lines. -/
theorem parseChains_chain {lines : List Line} (h : ∀ line ∈ lines, line.Good)
    (name hook : List Char) (rest : List Nft.Token) (fuel : Nat) :
    Nft.parseChains nftAddress (fuel + 1) (.word "chain".toList :: .word name ::
      (hookTokens hook ++ (linesTokens lines ++ .closeBrace :: rest))) =
        (Nft.parseChains nftAddress fuel rest).map fun r =>
          (⟨name, hook, "-50".toList, lines.map Line.rule⟩ :: r.1, r.2) := by
  have hhook : Nft.parseHook ((hookTokens hook).tail ++ (linesTokens lines ++ .closeBrace :: rest)) =
      some ((hook, "-50".toList), .newline :: (linesTokens lines ++ .closeBrace :: rest)) := by
    simp only [hookTokens, List.tail_cons, List.cons_append, List.nil_append, Nft.parseHook,
      and_self, if_true]
  have hrules : Nft.parseRules nftAddress
      (Nft.Token.newline :: (linesTokens lines ++ .closeBrace :: rest)).length
      (.newline :: (linesTokens lines ++ .closeBrace :: rest)) =
        some (lines.map Line.rule, rest) := by
    rw [List.length_cons, Nft.parseRules]
    · refine Nft.parseRules_lines nftAddress (fun line hline => (h line hline).reads) rest ?_
      have hlength := length_le_linesTokens lines
      rw [List.length_append, List.length_cons]
      omega
  have hopen : hookTokens hook ++ (linesTokens lines ++ .closeBrace :: rest) =
      .openBrace :: ((hookTokens hook).tail ++ (linesTokens lines ++ .closeBrace :: rest)) := rfl
  rw [hopen]
  simp only [Nft.parseChains, if_true, hhook, Option.bind_some, hrules]

/-- The tokens of the two chains. -/
def chainsTokens (ingress bootstrap : List Line) : List Nft.Token :=
  .word "chain".toList :: .word "ingress".toList ::
    (hookTokens "input".toList ++ (linesTokens ingress ++ .closeBrace :: .newline ::
      .word "chain".toList :: .word "bootstrap".toList ::
        (hookTokens "output".toList ++
          (linesTokens bootstrap ++ .closeBrace :: .newline :: [.closeBrace]))))

/-- The tokens of the script. -/
def scriptTokens (table : List Char) (ingress bootstrap : List Line) : List Nft.Token :=
  [.word "add".toList, .word "table".toList, .word "inet".toList, .word table, .newline,
    .word "flush".toList, .word "table".toList, .word "inet".toList, .word table, .newline,
    .word "table".toList, .word "inet".toList, .word table, .openBrace] ++
    chainsTokens ingress bootstrap

theorem parseCommands_scriptTokens {ingress bootstrap : List Line}
    (hingress : ∀ line ∈ ingress, line.Good) (hbootstrap : ∀ line ∈ bootstrap, line.Good)
    (table : List Char) :
    Nft.parseCommands nftAddress (scriptTokens table ingress bootstrap).length
      (scriptTokens table ingress bootstrap) =
        some [.add table, .flush table, .table table
          [⟨"ingress".toList, "input".toList, "-50".toList, ingress.map Line.rule⟩,
            ⟨"bootstrap".toList, "output".toList, "-50".toList, bootstrap.map Line.rule⟩]] := by
  have hchains : ∀ fuel, Nft.parseChains nftAddress (fuel + 5) (chainsTokens ingress bootstrap) =
      some ([⟨"ingress".toList, "input".toList, "-50".toList, ingress.map Line.rule⟩,
        ⟨"bootstrap".toList, "output".toList, "-50".toList, bootstrap.map Line.rule⟩], []) := by
    intro fuel
    unfold chainsTokens
    rw [parseChains_chain hingress, Nft.parseChains, parseChains_chain hbootstrap, Nft.parseChains,
      Nft.parseChains]
    rfl
  have hfuel : ∃ n, (chainsTokens ingress bootstrap).length = n + 5 := by
    refine ⟨(chainsTokens ingress bootstrap).length - 5, ?_⟩
    have hlength : 5 ≤ (chainsTokens ingress bootstrap).length := by
      simp only [chainsTokens, hookTokens, List.length_cons, List.length_append]
      omega
    omega
  obtain ⟨n, hn⟩ := hfuel
  have hadd : "add".toList ≠ "flush".toList := by decide
  have hflush : "flush".toList ≠ "add".toList := by decide
  unfold scriptTokens
  simp only [List.cons_append, List.nil_append, List.length_cons, Nft.parseCommands, and_self,
    if_true, if_neg hflush, hn, hchains, Option.bind_some, Option.map_some]

/-- The script from its lines, as the source joins them. -/
def scriptText (table : String) (ingress bootstrap : List Line) : String :=
  "add table inet " ++ table ++ "\nflush table inet " ++ table ++ "\n" ++ "\n".intercalate
    (["table inet " ++ table ++
        " \x7b chain ingress \x7b type filter hook input priority -50; policy accept;"] ++
      ingress.map Line.text ++ ["\x7d"] ++
      ["chain bootstrap \x7b type filter hook output priority -50; policy accept;"] ++
      bootstrap.map Line.text ++ ["\x7d", "\x7d"])

theorem join_append_singleton (separator : List Char) (xs : List (List Char)) (y : List Char) :
    List.intercalate separator (xs ++ [y]) = (xs.flatMap fun x => x ++ separator) ++ y := by
  induction xs with
  | nil => simp [List.intercalate]
  | cons x xs ih =>
    rw [List.flatMap_cons, List.append_assoc, ← ih]
    cases xs with
    | nil => simp [List.intercalate, List.intersperse]
    | cons x' xs => simp [List.intercalate, List.intersperse]

theorem toList_scriptText (table : String) (ingress bootstrap : List Line) :
    (scriptText table ingress bootstrap).toList =
      "add table inet ".toList ++ ((table.toList ++ "\nflush table inet ".toList) ++
        ((table.toList ++ "\n".toList) ++ ("table inet ".toList ++ ((table.toList ++
          (" \x7b chain ingress \x7b type filter hook input priority -50; policy accept;".toList ++
            "\n".toList)) ++
            ((ingress.flatMap fun line => line.text.toList ++ "\n".toList) ++
              (("\x7d".toList ++ "\n".toList) ++
                (("chain bootstrap \x7b type filter hook output priority -50; policy accept;".toList ++
                  "\n".toList) ++
                  ((bootstrap.flatMap fun line => line.text.toList ++ "\n".toList) ++
                    ("\x7d".toList ++ ("\n".toList ++ "\x7d".toList)))))))))) := by
  have hlast : ∀ xs : List String, xs ++ ["\x7d", "\x7d"] = (xs ++ ["\x7d"]) ++ ["\x7d"] := by
    intro xs
    rw [List.append_assoc]
    rfl
  unfold scriptText
  rw [hlast]
  simp only [String.toList_append, String.toList_intercalate, List.map_append, List.map_cons,
    List.map_nil, List.map_map]
  rw [join_append_singleton]
  simp only [List.flatMap_append, List.flatMap_cons, List.flatMap_nil, List.append_nil,
    List.append_assoc, List.flatMap_map, Function.comp_apply]

/-- The script is cut into its tokens when its lines can be read and the name of the table is a
word. -/
theorem lex_scriptText {table : String} {ingress bootstrap : List Line} (htable : Word table)
    (hingress : ∀ line ∈ ingress, line.Good) (hbootstrap : ∀ line ∈ bootstrap, line.Good) :
    Nft.lex (scriptText table ingress bootstrap).toList =
      some (scriptTokens table.toList ingress bootstrap) := by
  obtain ⟨hne, hchars⟩ := htable
  have hadd : Nft.Lexes "add table inet ".toList
      [.word "add".toList, .word "table".toList, .word "inet".toList] :=
    Nft.lexes_of_lex (by decide) (by decide)
  have hflush : Nft.Lexes (table.toList ++ "\nflush table inet ".toList)
      [.word table.toList, .newline, .word "flush".toList, .word "table".toList,
        .word "inet".toList] :=
    Nft.lexes_word hne hchars (by decide) (by decide) (by decide) (by decide)
  have hend : Nft.Lexes (table.toList ++ "\n".toList) [.word table.toList, .newline] :=
    Nft.lexes_word hne hchars (by decide) (by decide) (by decide) (by decide)
  have hname : Nft.Lexes "table inet ".toList [.word "table".toList, .word "inet".toList] :=
    Nft.lexes_of_lex (by decide) (by decide)
  have hhead : Nft.Lexes (table.toList ++
      (" \x7b chain ingress \x7b type filter hook input priority -50; policy accept;".toList ++
        "\n".toList))
      (.word table.toList :: .openBrace :: .word "chain".toList :: .word "ingress".toList ::
        hookTokens "input".toList) :=
    Nft.lexes_word hne hchars (by decide +kernel) (by decide) (by decide) (by decide)
  have hclose : Nft.Lexes ("\x7d".toList ++ "\n".toList) [.closeBrace, .newline] :=
    Nft.lexes_of_lex (by decide) (by decide)
  have hhead' : Nft.Lexes
      ("chain bootstrap \x7b type filter hook output priority -50; policy accept;".toList ++
        "\n".toList)
      (.word "chain".toList :: .word "bootstrap".toList :: hookTokens "output".toList) :=
    Nft.lexes_of_lex (by decide +kernel) (by decide)
  have hclose' : Nft.Lexes ("\x7d".toList ++ ("\n".toList ++ "\x7d".toList))
      [.closeBrace, .newline, .closeBrace] :=
    Nft.lexes_of_lex (by decide) (by decide)
  have hlines := fun lines (h : ∀ line ∈ lines, Line.Good line) =>
    Nft.lexes_flatMap fun line hline => (h line hline).lexes
  have hall := hadd.append (hflush.append (hend.append (hname.append (hhead.append
    ((hlines ingress hingress).append (hclose.append (hhead'.append
      ((hlines bootstrap hbootstrap).append hclose'))))))))
  rw [toList_scriptText, hall.lex]
  simp only [scriptTokens, chainsTokens, linesTokens, List.cons_append, List.nil_append]

end StorageInstances
end OpenstackPlatform
