import OpenstackPlatform.Library.Checks
import OpenstackPlatform.StorageInstances.FirewallScript

/-!
# The firewall is exact

The lines of the script are those of the records, and under the first-match meaning of its chains a
packet to the port of an instance is accepted exactly when its source is a fixed address or one that
the instance allows.  Two things stand in the way (`firewall_exact_iff`).  An address with a scope
ID has a `%`, which makes the script unreadable for all instances.  And a MongoDB instance without
an administrator is reached from its own host by root alone: the chain `bootstrap` drops what other
processes send to its port, from the loopback address too.

* `admittedAddresses`: the addresses that an instance admits.
* `verdict_ingress`, `verdict_bootstrap`: what each of the two chains makes of a packet.
* `fate_unscoped`: what both make of it, for allowlists without a scope ID.
* `FirewallExact`, `firewall_exact_iff`: the whole firewall.
-/

namespace OpenstackPlatform
namespace StorageInstances

open Library

/-! ## The script of the records -/

/-- The texts that an instance admits at its port: the fixed ones and its own. -/
def admittedTexts (platform : Platform) (config : Config) : List String :=
  [platform.admin, platform.storage, "127.0.0.1"] ++ config.allowIps

/-- The addresses that they name. -/
def admittedAddresses (platform : Platform) (config : Config) : List IpAddress :=
  (admittedTexts platform config).filterMap ipAddress

/-- The records with the texts that the script has for each. -/
def admits (platform : Platform) (configs : List Config) : List (Config × List String) :=
  configs.map fun config => (config, (admittedAddresses platform config).map IpAddress.text)

theorem admits_map_fst (platform : Platform) (configs : List Config) :
    (admits platform configs).map (fun e => e.1) = configs := by
  simp only [admits, List.map_map, Function.comp_def, List.map_id']

/-- All the texts of a record name addresses. -/
def Parsed (platform : Platform) (config : Config) : Prop :=
  ∀ value ∈ admittedTexts platform config, (ipAddress value).isSome

theorem mapM_eq_filterMap {α β : Type} {f : α → Option β} {l : List α}
    (h : ∀ a ∈ l, (f a).isSome) : l.mapM f = some (l.filterMap f) := by
  induction l with
  | nil => rfl
  | cons a l ih =>
    obtain ⟨b, hb⟩ := Option.isSome_iff_exists.mp (h a List.mem_cons_self)
    have hrest := ih fun c hc => h c (List.mem_cons_of_mem a hc)
    simp only [List.mapM_cons, hb, hrest, List.filterMap_cons, Option.bind_eq_bind,
      Option.bind_some, Option.pure_def]

theorem admitted_eq_ok {platform : Platform} {config : Config} (h : Parsed platform config) :
    admitted platform config =
      .ok ((admittedAddresses platform config).map IpAddress.text) := by
  unfold admitted
  have hparsed := mapM_eq_filterMap h
  unfold admittedTexts at hparsed
  rw [hparsed]
  rfl

theorem acceptRule_eq (port : Nat) (family : Nft.Family) (values : List String) :
    acceptRule port (familyName family) values = (acceptLine port family values).map Line.text := by
  unfold acceptRule acceptLine
  split
  · rfl
  · rw [List.map_cons, Line.text_accept, List.map_nil]

theorem dropRule_eq (ports : List Nat) (fresh : Bool) :
    dropRule ports (if fresh then "meta skuid != 0 " else "") =
      (dropLine ports fresh).map Line.text := by
  unfold dropRule dropLine
  split
  · rfl
  · rw [List.map_cons, Line.text_drop, List.map_nil]

theorem dropRule_all (ports : List Nat) :
    dropRule ports "" = (dropLine ports false).map Line.text := by
  rw [← dropRule_eq, if_neg Bool.false_ne_true]

theorem dropRule_fresh (ports : List Nat) :
    dropRule ports "meta skuid != 0 " = (dropLine ports true).map Line.text := by
  rw [← dropRule_eq, if_pos rfl]

theorem acceptRules_eq_ok {platform : Platform} {config : Config} (h : Parsed platform config) :
    acceptRules platform config =
      .ok ((acceptLines config.port
        ((admittedAddresses platform config).map IpAddress.text)).map Line.text) := by
  have hv4 : ∀ values : List String,
      sortedSet (values.filter fun value => !value.toList.contains ':') =
        familyTexts false values := by
    intro values
    unfold familyTexts
    congr 2
    funext value
    cases value.toList.contains ':'
    all_goals rfl
  have hv6 : ∀ values : List String,
      sortedSet (values.filter fun value => value.toList.contains ':') =
        familyTexts true values := by
    intro values
    unfold familyTexts
    congr 2
    funext value
    cases value.toList.contains ':'
    all_goals rfl
  unfold acceptRules
  rw [admitted_eq_ok h]
  simp only [bind, Except.bind, pure, Except.pure, hv4, hv6, acceptLines, List.map_append,
    ← acceptRule_eq]
  rfl

/-- The script is the text of its lines. -/
theorem firewallScript_eq_ok {platform : Platform} {configs : List Config}
    (h : ∀ config ∈ configs, Parsed platform config) :
    firewallScript platform configs = .ok (scriptText (firewallTable platform.space)
      (ingress (admits platform configs)) (bootstrap configs)) := by
  have haccepts : (configs.map fun config => (acceptLines config.port
      ((admittedAddresses platform config).map IpAddress.text)).map Line.text).flatten =
        ((admits platform configs).flatMap fun e => acceptLines e.1.port e.2).map Line.text := by
    rw [List.map_flatMap, admits, List.flatMap_map, List.flatMap_def]
  unfold firewallScript
  rw [Checks.mapM_eq_ok fun config hconfig => acceptRules_eq_ok (h config hconfig)]
  simp only [bind, Except.bind, pure, Except.pure, haccepts, dropRule_all, dropRule_fresh]
  unfold scriptText ingress bootstrap freshPorts
  rw [admits_map_fst, List.map_append, ← List.append_assoc]

/-! ## Addresses that the script can have -/

/-- What the deployment is configured with: the characters that its namespace may have, and fixed
addresses without a scope ID. -/
structure Platform.Valid (platform : Platform) : Prop where
  space : ∀ c ∈ platform.space.toList, c.isAlphanum = true ∨ c = '-'
  admin : ∃ a, ipAddress platform.admin = some a ∧ a.unscoped = true
  storage : ∃ a, ipAddress platform.storage = some a ∧ a.unscoped = true

/-- An allowlist whose entries `Manager.addresses` made. -/
def Allowlisted (values : List String) : Prop :=
  ∀ value ∈ values, ∃ given a, ipAddress given = some a ∧ value = a.text

theorem mem_sortedSet {value : String} {values : List String} :
    value ∈ sortedSet values ↔ value ∈ values := by
  unfold sortedSet
  rw [List.mem_insertionSort, List.mem_dedup]

/-- What `addresses` returns is such an allowlist. -/
theorem allowlisted_of_addresses {values list : List String} (h : addresses values = .ok list) :
    Allowlisted list := by
  unfold addresses at h
  split at h
  · cases h
  · split at h
    next parsed hparsed =>
      cases h
      intro value hvalue
      obtain ⟨a, ha, rfl⟩ := List.mem_map.mp (mem_sortedSet.mp hvalue)
      obtain ⟨given, -, hgiven⟩ := (of_mapM hparsed).2.2 a ha
      exact ⟨given, a, hgiven, rfl⟩
    next => cases h

/-- And `allow` keeps it one. -/
theorem AllowMode.allowlisted {mode : AllowMode} {previous supplied : List String}
    (h : Allowlisted previous) (h' : Allowlisted supplied) :
    Allowlisted (mode.change previous supplied) := by
  intro value hvalue
  have hmem := mem_sortedSet.mp hvalue
  cases mode with
  | replace => exact h' value hmem
  | add =>
    rcases List.mem_append.mp hmem with hmem | hmem
    · exact h value hmem
    · exact h' value hmem
  | remove => exact h value (List.mem_of_mem_filter hmem)

/-- How an address without a scope ID is written, and that `nft` reads it back. -/
theorem IpAddress.Valid.word {a : IpAddress} (h : a.Valid) (hunscoped : a.unscoped = true) :
    Word a.text ∧ ((':' ∉ a.chars ∧ nftAddress .ip a.chars = some a) ∨
      (':' ∈ a.chars ∧ nftAddress .ip6 a.chars = some a)) := by
  have hparse := IpAddress.parse_chars h
  unfold Word IpAddress.text
  rw [String.toList_ofList]
  cases h with
  | @v4 octets hlength hoctets =>
    have hchars := IpAddress.mem_of_parseV4 (IpAddress.parseV4_join hlength hoctets)
    refine ⟨⟨?_, ?_⟩, .inl ⟨?_, ?_⟩⟩
    · intro hnil
      have hnone : IpAddress.parse [] = none := by decide
      rw [hnil, hnone] at hparse
      cases hparse
    · intro c hc
      rcases hchars c hc with hdigit | rfl
      · exact isWordChar_of_isAlphanum (by rw [Char.isAlphanum, hdigit, Bool.or_true])
      · decide
    · intro hcolon
      rcases hchars _ hcolon with hdigit | heq
      · cases hdigit
      · cases heq
    · simp only [nftAddress, hparse]
  | @v6 hextets scopeId hlength hhextets hscope =>
    obtain rfl : scopeId = none := by simpa [IpAddress.unscoped] using hunscoped
    have hcolon := IpAddress.colon_mem_v6Text hlength hhextets
    refine ⟨⟨List.ne_nil_of_mem hcolon, ?_⟩, .inr ⟨hcolon, ?_⟩⟩
    · intro c hc
      rcases IpAddress.mem_v6Text hlength hhextets hc with hhex | rfl | rfl
      · exact isWordChar_of_isHex hhex
      · decide
      · decide
    · simp only [nftAddress, hparse]

section Meaning

variable {platform : Platform} {config : Config}

/-- No address that an instance allows has a scope ID. -/
def Unscoped (config : Config) : Prop :=
  ∀ value ∈ config.allowIps, ∀ a, ipAddress value = some a → a.unscoped = true

theorem parsed_of_allowlisted (hvalid : platform.Valid) (h : Allowlisted config.allowIps) :
    Parsed platform config := by
  intro value hvalue
  simp only [admittedTexts, List.mem_append, List.mem_cons, List.not_mem_nil, or_false] at hvalue
  rcases hvalue with (rfl | rfl | rfl) | hvalue
  · obtain ⟨a, ha, -⟩ := hvalid.admin
    rw [ha]
    rfl
  · obtain ⟨a, ha, -⟩ := hvalid.storage
    rw [ha]
    rfl
  · decide +kernel
  · obtain ⟨given, a, hgiven, rfl⟩ := h value hvalue
    rw [ipAddress_text hgiven]
    rfl

/-- The addresses in the script can be written, and have no scope ID when none is allowed. -/
theorem admittedAddresses_valid (hvalid : platform.Valid) (hunscoped : Unscoped config) :
    ∀ a ∈ admittedAddresses platform config, a.Valid ∧ a.unscoped = true := by
  intro a ha
  obtain ⟨value, hvalue, hparse⟩ := List.mem_filterMap.mp ha
  refine ⟨IpAddress.valid_of_parse hparse, ?_⟩
  simp only [admittedTexts, List.mem_append, List.mem_cons, List.not_mem_nil, or_false] at hvalue
  rcases hvalue with (rfl | rfl | rfl) | hvalue
  · obtain ⟨b, hb, hunscoped⟩ := hvalid.admin
    cases hb.symm.trans hparse
    exact hunscoped
  · obtain ⟨b, hb, hunscoped⟩ := hvalid.storage
    cases hb.symm.trans hparse
    exact hunscoped
  · have hloopback : ipAddress "127.0.0.1" = some (.v4 [127, 0, 0, 1]) := by decide +kernel
    cases hloopback.symm.trans hparse
    rfl
  · exact hunscoped value hvalue a hparse

variable {values : List String}

theorem mem_familyTexts {v6 : Bool} {value : String} :
    value ∈ familyTexts v6 values ↔ value ∈ values ∧ value.toList.contains ':' = v6 := by
  unfold familyTexts
  rw [mem_sortedSet, List.mem_filter, beq_iff_eq]

variable {addresses : List IpAddress}

/-- The texts of one family are those of the addresses of that family. -/
theorem familyTexts_text (h : ∀ a ∈ addresses, a.Valid ∧ a.unscoped = true) {value : String} :
    (value ∈ familyTexts false (addresses.map IpAddress.text) →
      ∃ a ∈ addresses, value = a.text ∧ nftAddress .ip value.toList = some a) ∧
    (value ∈ familyTexts true (addresses.map IpAddress.text) →
      ∃ a ∈ addresses, value = a.text ∧ nftAddress .ip6 value.toList = some a) := by
  have key : ∀ v6, value ∈ familyTexts v6 (addresses.map IpAddress.text) →
      ∃ a ∈ addresses, value = a.text ∧ value.toList = a.chars ∧ a.chars.contains ':' = v6 := by
    intro v6 hvalue
    obtain ⟨hmem, hcolon⟩ := mem_familyTexts.mp hvalue
    obtain ⟨a, ha, rfl⟩ := List.mem_map.mp hmem
    rw [IpAddress.text, String.toList_ofList] at hcolon
    exact ⟨a, ha, rfl, by rw [IpAddress.text, String.toList_ofList], hcolon⟩
  constructor
  · intro hvalue
    obtain ⟨a, ha, rfl, hchars, hcolon⟩ := key false hvalue
    obtain ⟨-, ⟨-, hread⟩ | ⟨hmem, -⟩⟩ := (h a ha).1.word (h a ha).2
    · exact ⟨a, ha, rfl, by rw [hchars, hread]⟩
    · exact absurd hmem (by simpa using hcolon)
  · intro hvalue
    obtain ⟨a, ha, rfl, hchars, hcolon⟩ := key true hvalue
    obtain ⟨-, ⟨hmem, -⟩ | ⟨-, hread⟩⟩ := (h a ha).1.word (h a ha).2
    · exact absurd (by simpa using hcolon) hmem
    · exact ⟨a, ha, rfl, by rw [hchars, hread]⟩

/-! ## The script is the template -/

/-- `firewall_table` is a word of `nft` for every namespace. -/
theorem word_firewallTable (hvalid : platform.Valid) : Word (firewallTable platform.space) := by
  have hsplit : (firewallTable platform.space).toList = "platform_".toList ++
      (platform.space.toList.map (fun c => if c = '-' then '_' else c) ++ "_instances".toList) := by
    unfold firewallTable
    simp only [String.toList_append, String.toList_ofList, List.append_assoc]
  have hfixed : ∀ c ∈ "platform_".toList ++ "_instances".toList, Nft.isWordChar c = true :=
    List.all_eq_true.mp (by decide)
  unfold Word
  rw [hsplit]
  constructor
  · exact List.append_ne_nil_of_left_ne_nil (by decide) _
  · intro c hc
    rcases List.mem_append.mp hc with hc | hc
    · exact hfixed c (List.mem_append_left _ hc)
    rcases List.mem_append.mp hc with hc | hc
    · obtain ⟨d, hd, rfl⟩ := List.mem_map.mp hc
      by_cases hdash : d = '-'
      · rw [if_pos hdash]
        decide
      · rw [if_neg hdash]
        rcases hvalid.space d hd with halnum | hdash'
        · exact isWordChar_of_isAlphanum halnum
        · exact absurd hdash' hdash
    · exact hfixed c (List.mem_append_right _ hc)

/-- The lines of an instance can be read when its addresses can. -/
theorem good_acceptLines (h : ∀ a ∈ addresses, a.Valid ∧ a.unscoped = true) (port : Nat) :
    ∀ line ∈ acceptLines port (addresses.map IpAddress.text), line.Good := by
  intro line hline
  unfold acceptLines at hline
  rcases List.mem_append.mp hline with hline | hline
  · refine good_acceptLine (fun value hvalue => ?_) line hline
    obtain ⟨a, ha, rfl, hread⟩ := (familyTexts_text h).1 hvalue
    exact ⟨((h a ha).1.word (h a ha).2).1, by rw [hread]; rfl⟩
  · refine good_acceptLine (fun value hvalue => ?_) line hline
    obtain ⟨a, ha, rfl, hread⟩ := (familyTexts_text h).2 hvalue
    exact ⟨((h a ha).1.word (h a ha).2).1, by rw [hread]; rfl⟩

variable {configs : List Config}

theorem good_ingress (hvalid : platform.Valid) (h : ∀ config ∈ configs, Unscoped config) :
    ∀ line ∈ ingress (admits platform configs), line.Good := by
  intro line hline
  unfold ingress at hline
  rcases List.mem_append.mp hline with hline | hline
  · obtain ⟨e, he, hline⟩ := List.mem_flatMap.mp hline
    obtain ⟨config, hconfig, rfl⟩ := List.mem_map.mp he
    exact good_acceptLines (admittedAddresses_valid hvalid (h config hconfig)) _ line hline
  · exact good_dropLine _ false line hline

/-- `nft` reads the script as the template, when no allowed address has a scope ID. -/
theorem parse_scriptText (hvalid : platform.Valid) (h : ∀ config ∈ configs, Unscoped config) :
    Nft.parse nftAddress (scriptText (firewallTable platform.space)
      (ingress (admits platform configs)) (bootstrap configs)).toList =
        some (template (firewallTable platform.space) (admits platform configs)) := by
  have hingress := good_ingress hvalid h
  have hbootstrap : ∀ line ∈ bootstrap configs, line.Good :=
    good_dropLine (freshPorts configs) true
  unfold Nft.parse
  rw [lex_scriptText (word_firewallTable hvalid) hingress hbootstrap, Option.bind_some,
    parseCommands_scriptTokens hingress hbootstrap, template, admits_map_fst]

/-! ## What the chains do -/

/-- Both families together name the addresses of the texts. -/
theorem mem_named (h : ∀ a ∈ addresses, a.Valid ∧ a.unscoped = true) (source : IpAddress) :
    (source ∈ named .ip (familyTexts false (addresses.map IpAddress.text)) ∨
      source ∈ named .ip6 (familyTexts true (addresses.map IpAddress.text))) ↔
        source ∈ addresses := by
  constructor
  · rintro (hmem | hmem)
    · obtain ⟨value, hvalue, hread⟩ := List.mem_filterMap.mp hmem
      obtain ⟨a, ha, -, hread'⟩ := (familyTexts_text h).1 hvalue
      rwa [Option.some.inj (hread.symm.trans hread')]
    · obtain ⟨value, hvalue, hread⟩ := List.mem_filterMap.mp hmem
      obtain ⟨a, ha, -, hread'⟩ := (familyTexts_text h).2 hvalue
      rwa [Option.some.inj (hread.symm.trans hread')]
  · intro hsource
    have htext : source.text ∈ addresses.map IpAddress.text := List.mem_map_of_mem hsource
    have hchars : source.text.toList = source.chars := by
      rw [IpAddress.text, String.toList_ofList]
    obtain ⟨-, ⟨hcolon, hread⟩ | ⟨hcolon, hread⟩⟩ := (h source hsource).1.word (h source hsource).2
    · refine .inl (List.mem_filterMap.mpr ⟨source.text, mem_familyTexts.mpr ⟨htext, ?_⟩, ?_⟩)
      · simpa [hchars] using hcolon
      · rw [hchars, hread]
    · refine .inr (List.mem_filterMap.mpr ⟨source.text, mem_familyTexts.mpr ⟨htext, ?_⟩, ?_⟩)
      · simpa [hchars] using hcolon
      · rw [hchars, hread]

/-- The line of one family matches the packets to its port from the addresses it names. -/
theorem applies_acceptLine (port : Nat) (family : Nft.Family) (values : List String)
    (packet : Nft.Packet IpAddress) :
    (∃ line ∈ acceptLine port family values, line.rule.applies packet = true) ↔
      packet.port = port ∧ packet.source ∈ named family values := by
  unfold acceptLine
  by_cases hempty : values.isEmpty = true
  · rw [if_pos hempty, List.isEmpty_iff.mp hempty]
    simp [named]
  · rw [if_neg hempty]
    simp [Line.rule, Nft.Rule.applies]

theorem applies_acceptLines (h : ∀ a ∈ addresses, a.Valid ∧ a.unscoped = true) (port : Nat)
    (packet : Nft.Packet IpAddress) :
    (∃ line ∈ acceptLines port (addresses.map IpAddress.text), line.rule.applies packet = true) ↔
      packet.port = port ∧ packet.source ∈ addresses := by
  have hfamilies := mem_named h packet.source
  unfold acceptLines
  simp only [List.mem_append, or_and_right, exists_or, applies_acceptLine, ← and_or_left, hfamilies]

theorem verdict_acceptLine {port : Nat} {family : Nft.Family} :
    ∀ line ∈ acceptLine port family values, line.rule.verdict = .accept := by
  intro line hline
  unfold acceptLine at hline
  split at hline
  · cases hline
  · rw [List.mem_singleton.mp hline]
    rfl

/-- A drop rule drops what goes to its ports, from root aside where it says so. -/
theorem verdict_dropLine (ports : List Nat) (fresh : Bool) (packet : Nft.Packet IpAddress) :
    Nft.verdict ((dropLine ports fresh).map Line.rule) packet =
      if packet.port ∈ ports ∧ (fresh = true → ∃ owner ∈ packet.owner, owner ≠ 0) then some .drop
      else none := by
  unfold dropLine
  by_cases hempty : ports.isEmpty = true
  · rw [if_pos hempty, List.isEmpty_iff.mp hempty]
    simp [Nft.verdict]
  · rw [if_neg hempty]
    have hall : ∀ rule ∈ [Line.drop ports fresh].map Line.rule, rule.verdict = .drop := by
      intro rule hrule
      obtain ⟨line, hline, rfl⟩ := List.mem_map.mp hrule
      rw [List.mem_singleton.mp hline]
      rfl
    rw [Nft.verdict_of_forall hall]
    rcases packet with ⟨port, source, owner⟩
    congr 1
    cases fresh with
    | true =>
      cases owner with
      | none => simp [Line.rule, Nft.Rule.applies]
      | some owner => simp [Line.rule, Nft.Rule.applies]
    | false => simp [Line.rule, Nft.Rule.applies]

theorem mem_sortedPorts {port : Nat} : port ∈ sortedPorts configs ↔ ∃ c ∈ configs, c.port = port := by
  unfold sortedPorts
  rw [List.mem_insertionSort, List.mem_dedup, List.mem_map]

/-- The accept rules accept a packet exactly when an instance at its port admits its source. -/
theorem verdict_accepts (hvalid : platform.Valid) (h : ∀ config ∈ configs, Unscoped config)
    (packet : Nft.Packet IpAddress) :
    Nft.verdict (((admits platform configs).flatMap fun e => acceptLines e.1.port e.2).map
      Line.rule) packet =
        if ∃ config ∈ configs, packet.port = config.port ∧
          packet.source ∈ admittedAddresses platform config then some .accept else none := by
  have hall : ∀ rule ∈ ((admits platform configs).flatMap fun e =>
      acceptLines e.1.port e.2).map Line.rule, rule.verdict = .accept := by
    intro rule hrule
    obtain ⟨line, hline, rfl⟩ := List.mem_map.mp hrule
    obtain ⟨e, -, hline⟩ := List.mem_flatMap.mp hline
    unfold acceptLines at hline
    rcases List.mem_append.mp hline with hline | hline
    · exact verdict_acceptLine line hline
    · exact verdict_acceptLine line hline
  rw [Nft.verdict_of_forall hall]
  refine if_congr ?_ rfl rfl
  constructor
  · rintro ⟨rule, hrule, happlies⟩
    obtain ⟨line, hline, rfl⟩ := List.mem_map.mp hrule
    obtain ⟨e, he, hline⟩ := List.mem_flatMap.mp hline
    obtain ⟨config, hconfig, rfl⟩ := List.mem_map.mp he
    have haddresses := admittedAddresses_valid hvalid (h config hconfig)
    exact ⟨config, hconfig, (applies_acceptLines haddresses _ packet).mp ⟨line, hline, happlies⟩⟩
  · rintro ⟨config, hconfig, hsource⟩
    have haddresses := admittedAddresses_valid hvalid (h config hconfig)
    obtain ⟨line, hline, happlies⟩ := (applies_acceptLines haddresses _ packet).mpr hsource
    have hentry : (config, (admittedAddresses platform config).map IpAddress.text) ∈
        admits platform configs := List.mem_map_of_mem hconfig
    have hmem : line ∈ (admits platform configs).flatMap fun e => acceptLines e.1.port e.2 :=
      List.mem_flatMap.mpr ⟨_, hentry, hline⟩
    exact ⟨line.rule, List.mem_map_of_mem hmem, happlies⟩

/-- What a packet to the host meets at the chain of the instances. -/
theorem verdict_ingress (hvalid : platform.Valid) (h : ∀ config ∈ configs, Unscoped config)
    (hports : (configs.map Config.port).Nodup) (packet : Nft.Packet IpAddress) :
    (∀ config ∈ configs, packet.port = config.port →
      Nft.verdict ((ingress (admits platform configs)).map Line.rule) packet =
        some (if packet.source ∈ admittedAddresses platform config then .accept else .drop)) ∧
    ((∀ config ∈ configs, packet.port ≠ config.port) →
      Nft.verdict ((ingress (admits platform configs)).map Line.rule) packet = none) := by
  unfold ingress
  rw [List.map_append, Nft.verdict_append, verdict_accepts hvalid h, admits_map_fst,
    verdict_dropLine]
  constructor
  · intro config hconfig hport
    have hdrop : packet.port ∈ sortedPorts configs := mem_sortedPorts.mpr ⟨config, hconfig, hport.symm⟩
    -- No other instance has this port, so no other allowlist counts.
    have hown : (∃ c ∈ configs, packet.port = c.port ∧ packet.source ∈ admittedAddresses platform c) ↔
        packet.source ∈ admittedAddresses platform config := by
      constructor
      · rintro ⟨c, hc, hcport, hsource⟩
        rwa [← List.inj_on_of_nodup_map hports hc hconfig (hcport.symm.trans hport)]
      · exact fun hsource => ⟨config, hconfig, hport, hsource⟩
    have hsecond : packet.port ∈ sortedPorts configs ∧
        (false = true → ∃ owner ∈ packet.owner, owner ≠ 0) :=
      ⟨hdrop, fun hfresh => absurd hfresh Bool.false_ne_true⟩
    rw [if_congr hown rfl rfl, if_pos hsecond]
    by_cases hsource : packet.source ∈ admittedAddresses platform config
    · rw [if_pos hsource, if_pos hsource]
      rfl
    · rw [if_neg hsource, if_neg hsource]
      rfl
  · intro hother
    rw [if_neg, if_neg]
    · rfl
    · rintro ⟨hmem, -⟩
      obtain ⟨config, hconfig, hport⟩ := mem_sortedPorts.mp hmem
      exact hother config hconfig hport.symm
    · rintro ⟨config, hconfig, hport, -⟩
      exact hother config hconfig hport

/-- A database that has no administrator yet: until then only root may reach it from the host. -/
def Config.fresh (config : Config) : Bool := config.engine = .mongo && !config.adminInitialized

theorem mem_freshPorts {port : Nat} :
    port ∈ freshPorts configs ↔ ∃ config ∈ configs, config.fresh = true ∧ config.port = port := by
  unfold freshPorts Config.fresh
  simp only [List.mem_map, List.mem_filter, and_assoc]

/-- The chain of the fresh databases drops what a process other than root's sends to their ports. -/
theorem verdict_bootstrap (packet : Nft.Packet IpAddress) :
    Nft.verdict ((bootstrap configs).map Line.rule) packet =
      if packet.port ∈ freshPorts configs ∧ ∃ owner ∈ packet.owner, owner ≠ 0 then some .drop
      else none := by
  unfold bootstrap
  rw [verdict_dropLine]
  simp only [forall_const]

/-- What a packet to the host meets at both chains: what the first one drops does not reach the
second one. -/
theorem fate_template (table : String) (packet : Nft.Packet IpAddress) :
    Nft.fate (Nft.chainsOf (template table (admits platform configs))) packet =
      (Nft.verdict ((bootstrap configs).map Line.rule) packet).or
        (Nft.verdict ((ingress (admits platform configs)).map Line.rule) packet) := by
  have hchains : Nft.chainsOf (template table (admits platform configs)) =
      [⟨"ingress".toList, "input".toList, "-50".toList,
          (ingress (admits platform configs)).map Line.rule⟩,
        ⟨"bootstrap".toList, "output".toList, "-50".toList,
          (bootstrap configs).map Line.rule⟩] := by
    rw [template, admits_map_fst]
    rfl
  rcases packet with ⟨port, source, owner⟩
  cases owner with
  | none =>
    have hmet : Nft.chainsMet (Nft.chainsOf (template table (admits platform configs)))
        ⟨port, source, none⟩ = [⟨"ingress".toList, "input".toList, "-50".toList,
          (ingress (admits platform configs)).map Line.rule⟩] := by
      rw [hchains]
      rfl
    rw [Nft.fate_single hmet, verdict_bootstrap, if_neg]
    · rfl
    · rintro ⟨-, owner, howner, -⟩
      cases howner
  | some owner =>
    have hmet : Nft.chainsMet (Nft.chainsOf (template table (admits platform configs)))
        ⟨port, source, some owner⟩ = [⟨"bootstrap".toList, "output".toList, "-50".toList,
            (bootstrap configs).map Line.rule⟩,
          ⟨"ingress".toList, "input".toList, "-50".toList,
            (ingress (admits platform configs)).map Line.rule⟩] := by
      rw [hchains]
      rfl
    refine Nft.fate_pair hmet ?_
    rw [verdict_bootstrap]
    split <;> simp

/-- **What becomes of a packet to the host**, when no allowed address has a scope ID: to the port of a
fresh database only root may send from the host; to the port of an instance a packet is accepted
when its source is a fixed address or one that the instance allows, and dropped otherwise; packets
to other ports are untouched. -/
theorem fate_unscoped (hvalid : platform.Valid) (h : ∀ config ∈ configs, Unscoped config)
    (hports : (configs.map Config.port).Nodup) (table : String)
    (packet : Nft.Packet IpAddress) :
    (∀ config ∈ configs, packet.port = config.port →
      Nft.fate (Nft.chainsOf (template table (admits platform configs))) packet =
        some (if packet.source ∈ admittedAddresses platform config ∧
            ¬ (config.fresh = true ∧ ∃ owner ∈ packet.owner, owner ≠ 0) then .accept else .drop)) ∧
    ((∀ config ∈ configs, packet.port ≠ config.port) →
      Nft.fate (Nft.chainsOf (template table (admits platform configs))) packet = none) := by
  obtain ⟨hinstances, hothers⟩ := verdict_ingress hvalid h hports packet
  rw [fate_template, verdict_bootstrap]
  constructor
  · intro config hconfig hport
    have hfresh : packet.port ∈ freshPorts configs ↔ config.fresh = true := by
      rw [mem_freshPorts]
      constructor
      · rintro ⟨c, hc, hcfresh, hcport⟩
        rwa [← List.inj_on_of_nodup_map hports hc hconfig (hcport.trans hport)]
      · exact fun hfresh => ⟨config, hconfig, hfresh, hport.symm⟩
    rw [hinstances config hconfig hport]
    by_cases hdrop : config.fresh = true ∧ ∃ owner ∈ packet.owner, owner ≠ 0
    · have hnot : ¬ (packet.source ∈ admittedAddresses platform config ∧
          ¬ (config.fresh = true ∧ ∃ owner ∈ packet.owner, owner ≠ 0)) :=
        fun hboth => hboth.2 hdrop
      rw [if_pos ⟨hfresh.mpr hdrop.1, hdrop.2⟩, if_neg hnot]
      rfl
    · rw [if_neg fun hboth => hdrop ⟨hfresh.mp hboth.1, hboth.2⟩, Option.none_or]
      exact congrArg some (if_congr (and_iff_left hdrop).symm rfl rfl)
  · intro hother
    rw [hothers hother, if_neg]
    · rfl
    · rintro ⟨hmem, -⟩
      obtain ⟨config, hconfig, -, hport⟩ := mem_freshPorts.mp hmem
      exact hother config hconfig hport.symm

/-- **The firewall of some records is exact**: there is a script, `nft` reads it as the template and
nothing else, a packet to the port of an instance comes through both chains when its source is a
fixed address or one that the instance allows and is dropped otherwise, and packets to other ports
are untouched by them. -/
structure FirewallExact (platform : Platform) (configs : List Config) (script : String) :
    Prop where
  built : firewallScript platform configs = .ok script
  template : Nft.parse nftAddress script.toList =
    some (template (firewallTable platform.space) (admits platform configs))
  instances : ∀ commands, Nft.parse nftAddress script.toList = some commands →
    ∀ (packet : Nft.Packet IpAddress), ∀ config ∈ configs, packet.port = config.port →
      Nft.fate (Nft.chainsOf commands) packet =
        some (if packet.source ∈ admittedAddresses platform config then .accept else .drop)
  others : ∀ commands, Nft.parse nftAddress script.toList = some commands →
    ∀ packet : Nft.Packet IpAddress, (∀ config ∈ configs, packet.port ≠ config.port) →
      Nft.fate (Nft.chainsOf commands) packet = none

theorem percent_mem_chars {a : IpAddress} (hscoped : a.unscoped = false) : '%' ∈ a.chars := by
  cases a with
  | v4 octets => exact absurd hscoped (by simp [IpAddress.unscoped])
  | v6 hextets scopeId =>
    cases scopeId with
    | none => exact absurd hscoped (by simp [IpAddress.unscoped])
    | some scopeId => exact List.mem_append_right _ List.mem_cons_self

/-- A text of an instance is in one of its lines, character by character. -/
theorem mem_acceptLines {value : String} (hvalue : value ∈ values) {c : Char}
    (hc : c ∈ value.toList) (port : Nat) :
    ∃ line ∈ acceptLines port values, c ∈ line.text.toList := by
  have key : ∀ family (texts : List String), value ∈ texts →
      ∃ line ∈ acceptLine port family texts, c ∈ line.text.toList := by
    intro family texts hmem
    have hne : ¬ texts.isEmpty = true := by
      rw [List.isEmpty_iff]
      exact List.ne_nil_of_mem hmem
    have hjoin : c ∈ List.intercalate ", ".toList (texts.map String.toList) :=
      mem_intercalate_of_mem (List.mem_map_of_mem hmem) hc
    refine ⟨.accept port family texts, ?_, ?_⟩
    · rw [acceptLine, if_neg hne]
      exact List.mem_singleton_self _
    · rw [Line.text_accept]
      simp only [String.toList_append, String.toList_intercalate, List.mem_append]
      exact .inl (.inr hjoin)
  unfold acceptLines
  by_cases hcolon : value.toList.contains ':' = true
  · obtain ⟨line, hline, hmem⟩ := key .ip6 _ (mem_familyTexts.mpr ⟨hvalue, hcolon⟩)
    exact ⟨line, List.mem_append_right _ hline, hmem⟩
  · have hcolon' : value.toList.contains ':' = false := by simpa using hcolon
    obtain ⟨line, hline, hmem⟩ := key .ip _ (mem_familyTexts.mpr ⟨hvalue, hcolon'⟩)
    exact ⟨line, List.mem_append_left _ hline, hmem⟩

/-- A scope ID is in the script. -/
theorem percent_mem_scriptText {a : IpAddress} (hconfig : config ∈ configs)
    (ha : a ∈ admittedAddresses platform config) (hscoped : a.unscoped = false) :
    '%' ∈ (scriptText (firewallTable platform.space) (ingress (admits platform configs))
      (bootstrap configs)).toList := by
  have hpercent : '%' ∈ a.text.toList := by
    rw [IpAddress.text, String.toList_ofList]
    exact percent_mem_chars hscoped
  obtain ⟨line, hline, hmem⟩ := mem_acceptLines (List.mem_map_of_mem ha) hpercent config.port
  have hentry : (config, (admittedAddresses platform config).map IpAddress.text) ∈
      admits platform configs := List.mem_map_of_mem hconfig
  have hingress : line ∈ ingress (admits platform configs) :=
    List.mem_append_left _ (List.mem_flatMap.mpr ⟨_, hentry, hline⟩)
  have hlines : '%' ∈ (ingress (admits platform configs)).flatMap fun line =>
      line.text.toList ++ "\n".toList :=
    List.mem_flatMap.mpr ⟨line, hingress, List.mem_append_left _ hmem⟩
  rw [toList_scriptText]
  iterate 5 refine List.mem_append_right _ ?_
  exact List.mem_append_left _ hlines

/-- A readable script has no scope ID in it. -/
theorem unscoped_of_exact (hvalid : platform.Valid)
    (hallow : ∀ config ∈ configs, Allowlisted config.allowIps) {script : String}
    (hexact : FirewallExact platform configs script) : ∀ config ∈ configs, Unscoped config := by
  intro config hconfig value hvalue a ha
  by_contra hscoped
  have hbuilt := firewallScript_eq_ok fun config hconfig =>
    parsed_of_allowlisted hvalid (hallow config hconfig)
  have hmem : a ∈ admittedAddresses platform config :=
    List.mem_filterMap.mpr ⟨value, List.mem_append_right _ hvalue, ha⟩
  cases hbuilt.symm.trans hexact.built
  have hparse := hexact.template
  have hpercent := percent_mem_scriptText hconfig hmem (by simpa using hscoped)
  rw [Nft.parse, Nft.lex_eq_none hpercent (by decide) (by decide) (by decide)] at hparse
  cases hparse

/-- An exact firewall keeps no process of the host from its loopback address. -/
theorem not_fresh_of_exact (hvalid : platform.Valid)
    (hports : (configs.map Config.port).Nodup) (h : ∀ config ∈ configs, Unscoped config)
    {script : String} (hexact : FirewallExact platform configs script) :
    ∀ config ∈ configs, config.fresh = false := by
  intro config hconfig
  by_contra hfresh
  have hloopback : ipAddress "127.0.0.1" = some (.v4 [127, 0, 0, 1]) := by decide +kernel
  have hsource : IpAddress.v4 [127, 0, 0, 1] ∈ admittedAddresses platform config :=
    List.mem_filterMap.mpr ⟨"127.0.0.1", by simp [admittedTexts], hloopback⟩
  have hfate := hexact.instances _ hexact.template ⟨config.port, .v4 [127, 0, 0, 1], some 1⟩ config
    hconfig rfl
  rw [(fate_unscoped hvalid h hports _ _).1 config hconfig rfl, if_pos hsource, if_neg] at hfate
  · cases hfate
  · exact fun hboth => hboth.2 ⟨by simpa using hfresh, 1, rfl, by decide⟩

/-- Without scope IDs and fresh databases the script is readable and does what it should. -/
theorem exact_of_unscoped (hvalid : platform.Valid)
    (hallow : ∀ config ∈ configs, Allowlisted config.allowIps)
    (hports : (configs.map Config.port).Nodup)
    (h : ∀ config ∈ configs, Unscoped config ∧ config.fresh = false) :
    ∃ script, FirewallExact platform configs script := by
  have hunscoped : ∀ config ∈ configs, Unscoped config := fun config hconfig =>
    (h config hconfig).1
  have hbuilt := firewallScript_eq_ok fun config hconfig =>
    parsed_of_allowlisted hvalid (hallow config hconfig)
  have hparse := parse_scriptText hvalid hunscoped
  refine ⟨_, hbuilt, hparse, ?_, ?_⟩
  · intro commands hcommands packet config hconfig hport
    cases hparse.symm.trans hcommands
    rw [(fate_unscoped hvalid hunscoped hports _ packet).1 config hconfig hport]
    refine congrArg some (if_congr (and_iff_left ?_) rfl rfl)
    rintro ⟨hfresh, -⟩
    cases (h config hconfig).2.symm.trans hfresh
  · intro commands hcommands packet hother
    cases hparse.symm.trans hcommands
    exact (fate_unscoped hvalid hunscoped hports _ packet).2 hother

/-- **The firewall is exact exactly when no allowed address has a scope ID and no database waits for
its administrator.**  A scope ID makes the whole script unreadable, so that no instance has a
firewall at all.  A fresh database is meant to be out of reach: the chain on the way out drops what
any process other than root's sends to it, from the loopback address too.

The ports of the instances are distinct in every state that the manager reaches
(`PortsExclusive`); with a shared port the allowlist of one instance would count for the other. -/
theorem firewall_exact_iff (hvalid : platform.Valid)
    (hallow : ∀ config ∈ configs, Allowlisted config.allowIps)
    (hports : (configs.map Config.port).Nodup) :
    (∃ script, FirewallExact platform configs script) ↔
      ∀ config ∈ configs, Unscoped config ∧ config.fresh = false := by
  constructor
  · rintro ⟨script, hexact⟩ config hconfig
    have hunscoped := unscoped_of_exact hvalid hallow hexact
    exact ⟨hunscoped config hconfig, not_fresh_of_exact hvalid hports hunscoped hexact config hconfig⟩
  · exact exact_of_unscoped hvalid hallow hports

end Meaning

/-- A deployment, and a database that some addresses may reach. -/
def examplePlatform : Platform := ⟨"prod-1", "10.0.0.2", "10.0.0.3", 0, 0⟩

def allowing (port : Nat) (values : List String) : Config :=
  { Config.create "app" .postgres port ⟨0, 0, 0, 0⟩ with allowIps := values }

theorem examplePlatform_valid : examplePlatform.Valid where
  space := by
    have hall : (examplePlatform.space.toList.all fun c => c.isAlphanum || c == '-') = true := by
      decide
    intro c hc
    simpa using List.all_eq_true.mp hall c hc
  admin := ⟨.v4 [10, 0, 0, 2], by decide +kernel, rfl⟩
  storage := ⟨.v4 [10, 0, 0, 3], by decide +kernel, rfl⟩

/-- Two instances: one allows an address that it was given, the other one an address of each family,
the second of which was added to the first. -/
theorem firewall_exact_two_families :
    ∃ script, FirewallExact examplePlatform
      [allowing 30000 ["10.1.0.9"], allowing 30001 ["10.1.0.9", "2001:db8::9"]] script := by
  have hv4 : ipAddress "10.1.0.9" = some (.v4 [10, 1, 0, 9]) := by decide +kernel
  have hv6 : ipAddress "2001:db8::9" = some (.v6 [0x2001, 0xdb8, 0, 0, 0, 0, 0, 9] none) := by
    decide +kernel
  have hgiven : Allowlisted ["10.1.0.9"] :=
    allowlisted_of_addresses (show addresses ["10.1.0.9"] = .ok ["10.1.0.9"] by decide +kernel)
  have hadded : Allowlisted ["2001:db8::9"] :=
    allowlisted_of_addresses
      (show addresses ["2001:DB8::9"] = .ok ["2001:db8::9"] by decide +kernel)
  have hboth : Allowlisted ["10.1.0.9", "2001:db8::9"] := by
    have hchange : AllowMode.add.change ["10.1.0.9"] ["2001:db8::9"] =
        ["10.1.0.9", "2001:db8::9"] := by decide +kernel
    rw [← hchange]
    exact AllowMode.allowlisted hgiven hadded
  have hunscoped : ∀ value ∈ ["10.1.0.9", "2001:db8::9"], ∀ a, ipAddress value = some a →
      a.unscoped = true := by
    intro value hvalue a ha
    rcases List.mem_pair.mp hvalue with rfl | rfl
    · rw [← Option.some.inj (hv4.symm.trans ha)]
      rfl
    · rw [← Option.some.inj (hv6.symm.trans ha)]
      rfl
  refine (firewall_exact_iff examplePlatform_valid ?_ (by decide)).mpr ?_
  · intro config hconfig
    rcases List.mem_pair.mp hconfig with rfl | rfl
    · exact hgiven
    · exact hboth
  · intro config hconfig
    rcases List.mem_pair.mp hconfig with rfl | rfl
    · exact ⟨fun value hvalue => hunscoped value (List.mem_cons.mpr (.inl
        (List.mem_singleton.mp hvalue))), rfl⟩
    · exact ⟨hunscoped, rfl⟩

/-- A link-local address with a scope ID is accepted as it is, and there is no exact firewall for an
instance that allows it. -/
theorem firewall_scope_unreadable :
    addresses ["fe80::1%eth0"] = .ok (allowing 30000 ["fe80::1%eth0"]).allowIps ∧
      ¬ ∃ script, FirewallExact examplePlatform [allowing 30000 ["fe80::1%eth0"]] script := by
  have hparse : ipAddress "fe80::1%eth0" =
      some (.v6 [0xfe80, 0, 0, 0, 0, 0, 0, 1] (some "eth0".toList)) := by decide +kernel
  have hmem : ∀ config ∈ [allowing 30000 ["fe80::1%eth0"]], config = allowing 30000 ["fe80::1%eth0"] :=
    fun config hconfig => List.mem_singleton.mp hconfig
  refine ⟨by decide +kernel, ?_⟩
  rintro ⟨script, hexact⟩
  have hallow : ∀ config ∈ [allowing 30000 ["fe80::1%eth0"]], Allowlisted config.allowIps := by
    intro config hconfig value hvalue
    rw [hmem config hconfig] at hvalue
    rw [List.mem_singleton.mp hvalue]
    exact ⟨_, _, hparse, by decide +kernel⟩
  have hunscoped := unscoped_of_exact examplePlatform_valid hallow hexact _
    List.mem_cons_self _ List.mem_cons_self _ hparse
  cases hunscoped

end StorageInstances
end OpenstackPlatform
