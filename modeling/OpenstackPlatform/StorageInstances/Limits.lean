import OpenstackPlatform.StorageInstances.Ports

/-!
# Limits of instances

Every instance reserves the largest of its three records of limits.  Together the reservations stay
within the budgets along every run (`reserved_of_run`): each request that raises one checked the
sum, under the lock, and no other instance changes in between.

What is *assigned* to an instance follows its reservation only while no request drops a limit that
is still assigned.  Three requests can: `limits` to the accepted limits while others are assigned,
because it then skips the assignment; the begin and the end of a restore or of a copy, which put a
reservation back although a larger limit was assigned since.  `Admits` is the condition on the state
in which such a request starts, and `limits_of_run` is what holds when all of them meet it.
-/

namespace OpenstackPlatform
namespace StorageInstances

open Library

variable {platform : Platform} {i : InstanceId} {q : Request}

/-! ## Reservations -/

/-- The reservations of all instances are within the budgets. -/
structure Reserved (platform : Platform) (s : Host) : Prop where
  memory : total Config.memoryReservation s.records ≤ platform.memoryBudget + MAINTENANCE_MEMORY
  connections : total Config.connectionReservation s.records ≤ CONNECTION_BUDGET

theorem total_records (figure : Config → Nat) (s : Host) :
    total figure s.records = Table.sumOver (fun _ c => figure c) s.configs := by
  unfold Host.records
  simp only [total, Table.sumOver, Table.sumEntries, List.foldr_map]

/-- The sum after a record is written is that of the others and its own. -/
theorem total_put (figure : Config → Nat) (s : Host) (i : InstanceId) (c : Config) :
    total figure (s.put i c).records = figure c + total figure (s.others i) := by
  rw [total_records, total_others]
  exact Table.sumOver_insert

/-- The sum is that of the others and the record's own. -/
theorem total_of_lookup (figure : Config → Nat) {s : Host} {c : Config}
    (hc : s.configs.lookup i = some c) :
    total figure s.records = figure c + total figure (s.others i) := by
  rw [total_records, total_others]
  exact Table.sumOver_of_lookup hc

/-- A reservation that does not grow, or that fits beside the others. -/
def Covered (before after others budget : Nat) : Prop :=
  after ≤ before ∨ others + after ≤ budget

theorem covered_of_le_max {before after others budget target : Nat}
    (h : after ≤ max before target) (hfits : others + target ≤ budget) :
    Covered before after others budget := by
  rcases Nat.le_total before target with hle | hle
  · exact .inr (by omega)
  · exact .inl (by omega)

/-- An edit that raises a reservation made sure that it fits. -/
theorem Edit.covered {s : Host} {c c' : Config} (h : Edit platform q (view i s) c c') :
    Covered c.memoryReservation c'.memoryReservation (s.rest i).memory
        (platform.memoryBudget + MAINTENANCE_MEMORY) ∧
      Covered c.connectionReservation c'.connectionReservation (s.rest i).connections
        CONNECTION_BUDGET := by
  have hrest : ∀ others, (view i s).others = some others → others = s.rest i := by
    intro others hothers
    have hlock : s.lock = some i := lock_of_others (by rw [hothers]; rfl)
    simpa [view, hlock] using hothers.symm
  cases h with
  | @reserved target _ _ _ others hothers hfits =>
    obtain rfl := hrest others hothers
    refine ⟨covered_of_le_max ?_ (hfits.memory.trans (by omega)),
      covered_of_le_max ?_ hfits.connections⟩
    all_goals
      simp only [Config.memoryReservation, Config.connectionReservation, Config.reserve,
        Quotas.larger]
      omega
  | accepted hquotas _ _ =>
    subst hquotas
    refine ⟨.inl ?_, .inl ?_⟩
    all_goals
      simp only [Config.memoryReservation, Config.connectionReservation, Config.accept]
      omega
  | @restoreBegun _ _ _ others _ hothers hfits =>
    obtain rfl := hrest others hothers
    refine ⟨covered_of_le_max ?_ hfits.memory, .inl ?_⟩
    all_goals
      simp only [Config.memoryReservation, Config.connectionReservation, Config.beginRestore]
      omega
  | restoreFinished _ _ =>
    refine ⟨.inl ?_, .inl ?_⟩
    all_goals
      simp only [Config.memoryReservation, Config.connectionReservation, Config.finishRestore]
      omega
  | @boosted _ _ _ others _ _ hothers hfits =>
    obtain rfl := hrest others hothers
    refine ⟨covered_of_le_max ?_ hfits.memory, .inl ?_⟩
    all_goals
      simp only [Config.memoryReservation, Config.connectionReservation, Config.boost,
        Config.copyLimits]
      omega
  | unboosted _ _ =>
    refine ⟨.inl ?_, .inl ?_⟩
    all_goals
      simp only [Config.memoryReservation, Config.connectionReservation, Config.unboost]
      omega
  | allowed _ hallow =>
    rcases Config.allow_eq_ok hallow with ⟨ips, parked, rfl⟩
    exact ⟨.inl le_rfl, .inl le_rfl⟩
  | @frozen role =>
    rcases c.freeze_eq role with ⟨sourceRole, heq⟩
    rw [heq]
    exact ⟨.inl le_rfl, .inl le_rfl⟩
  | sealed hsealed =>
    rw [Config.sealed_eq_ok hsealed]
    exact ⟨.inl le_rfl, .inl le_rfl⟩
  | _ => exact ⟨.inl le_rfl, .inl le_rfl⟩

theorem total_put_le {figure : Config → Nat} {s : Host} {c c' : Config} {bound : Nat}
    (hc : s.configs.lookup i = some c) (h : total figure s.records ≤ bound)
    (hcovered : Covered (figure c) (figure c') (total figure (s.others i)) bound) :
    total figure (s.put i c').records ≤ bound := by
  rw [total_of_lookup figure hc] at h
  rw [total_put]
  rcases hcovered with hle | hle
  · omega
  · omega

/-- One step of a request keeps the reservations within the budgets. -/
theorem Change.reserved {s s' : Host} {t : Write ⊕ Command} (hr : Reserved platform s)
    (h : Change platform i q s t s') : Reserved platform s' := by
  have hcongr : s'.configs = s.configs → Reserved platform s' := by
    intro heq
    have hrecords : s'.records = s.records := by simp only [Host.records, heq]
    exact ⟨hrecords ▸ hr.memory, hrecords ▸ hr.connections⟩
  cases h with
  | silent _ hconfigs => exact hcongr hconfigs
  | create _ _ _ _ _ _ _ hfits =>
    have hmemory := hfits.memory
    have hconnections := hfits.connections
    constructor
    · rw [total_put, total_others]
      simp only [Config.memoryReservation, Config.create, max_self]
      simp only [Host.rest, Config.memoryReservation] at hmemory
      omega
    · rw [total_put, total_others]
      simp only [Config.connectionReservation, Config.create, max_self]
      simp only [Host.rest, Config.connectionReservation] at hconnections
      omega
  | edit hc hedit =>
    obtain ⟨hmemory, hconnections⟩ := hedit.covered
    constructor
    · refine total_put_le hc hr.memory ?_
      rw [total_others]
      exact hmemory
    · refine total_put_le hc hr.connections ?_
      rw [total_others]
      exact hconnections
  | @rename c s' _ hc _ hexec =>
    simp only [Write.exec, hc] at hexec
    split at hexec
    · cases hexec
    · cases hexec
    · cases hexec
      have hsum : ∀ figure : Config → Nat,
          total figure { s with configs := s.configs.erase i }.records ≤
            total figure s.records := by
        intro figure
        rw [total_of_lookup figure hc, total_records, total_others]
        exact Nat.le_add_left _ _
      exact ⟨(hsum _).trans hr.memory, (hsum _).trans hr.connections⟩
  | _ => exact hcongr rfl

/-- **Reservations stay within the budgets along every run**, whatever fails and wherever the
manager stops. -/
theorem reserved_of_run {ok : ManagerState → ManagerLabel → Prop} {ls : List ManagerLabel}
    {m : ManagerState} (h : ManagerRun platform ok ls m) : Reserved platform m.state := by
  induction h with
  | nil => exact ⟨Nat.zero_le _, Nat.zero_le _⟩
  | snoc hrun hstep ih =>
    rcases change_of_step (sound_of_run' hrun) hstep.1 with heq | heq | ⟨i, q, t, -, hchange⟩
    · rwa [heq]
    · rw [heq]
      exact ⟨ih.memory, ih.connections⟩
    · exact hchange.reserved ih

/-! ## Assignments -/

/-- The properties and the project limit last assigned to an instance are within an amount of
memory and a size. -/
structure Within (p : Option UnitProperties) (l : Option ProjectLimit) (memory size : Nat) :
    Prop where
  memory : (p.map UnitProperties.memoryMax).getD 0 ≤ memory
  blocks : (l.map ProjectLimit.bhardKib).getD 0 ≤ hardQuota size / 1024
  inodes : (l.bind ProjectLimit.ihard).getD 0 ≤ max 4096 (size / 32768)

instance {p : Option UnitProperties} {l : Option ProjectLimit} {memory size : Nat} :
    Decidable (Within p l memory size) :=
  decidable_of_iff (_ ∧ _ ∧ _) ⟨fun h => ⟨h.1, h.2.1, h.2.2⟩, fun h => ⟨h.1, h.2, h.3⟩⟩

variable {p : Option UnitProperties} {l : Option ProjectLimit} {c c' : Config}

theorem Within.mono {memory size memory' size' : Nat} (h : Within p l memory size)
    (hmemory : memory ≤ memory') (hsize : size ≤ size') : Within p l memory' size' where
  memory := h.memory.trans hmemory
  blocks := h.blocks.trans (Nat.div_le_div_right (hardQuota_mono hsize))
  inodes := by
    have hdiv : size / 32768 ≤ size' / 32768 := Nat.div_le_div_right hsize
    have hinodes := h.inodes
    omega

/-- A limit that is named is within a size when its two figures are. -/
theorem within_limit {memory size blocks inodes : Nat}
    (h : (p.map UnitProperties.memoryMax).getD 0 ≤ memory) (hblocks : blocks ≤ hardQuota size / 1024)
    (hinodes : inodes ≤ max 4096 (size / 32768)) :
    Within p (some ⟨blocks, some inodes⟩) memory size :=
  ⟨h, hblocks, hinodes⟩

/-- The limit of a project is within the size that it was made for. -/
theorem within_projectLimit {memory : Nat} (h : (p.map UnitProperties.memoryMax).getD 0 ≤ memory) :
    Within p (some c.projectLimit) memory c.quotas.sizeBytes :=
  within_limit h le_rfl le_rfl

theorem Within.limit {memory size : Nat} (h : Within p l memory size)
    (hsize : c.quotas.sizeBytes ≤ size) : Within p (some c.projectLimit) memory size :=
  (within_projectLimit h.memory).mono le_rfl hsize

theorem Within.properties {memory size : Nat} {new : UnitProperties} (h : Within p l memory size)
    (hnew : new.memoryMax ≤ memory) : Within (some (new.over p)) l memory size :=
  ⟨hnew, h.blocks, h.inodes⟩

/-- The condition on the state of an instance in which a request starts: no limit that is still
assigned is dropped from the reservation. -/
def Admits : Request → Config → Option UnitProperties → Option ProjectLimit → Prop
  | .limits target _, c, p, l =>
    c.restoreMemoryBytes.getD 0 ≤ target.memoryBytes ∧
      Within p l
        (max target.memoryBytes (max c.acceptedQuotas.memoryBytes c.reservedQuotas.memoryBytes))
        (max target.sizeBytes (max c.acceptedQuotas.sizeBytes c.reservedQuotas.sizeBytes))
  | .restoreBegin backupSha256, c, p, l =>
    c.restoredBackupSha256 = some backupSha256 ∨
      Within p l (max c.restoreLimits.memoryBytes c.acceptedQuotas.memoryBytes) c.sizeReservation
  | .restoreFinish _, c, p, l =>
    c.restorePending = none ∨
      Within p l c.memoryReservation (max c.quotas.sizeBytes c.acceptedQuotas.sizeBytes)
  | .copy _, c, p, l =>
    c.engine = .mongo → c.quotas.memoryBytes < GIB →
      GIB ≤ c.acceptedQuotas.memoryBytes ∧
        Within p l c.acceptedQuotas.memoryBytes
          (max c.quotas.sizeBytes c.acceptedQuotas.sizeBytes)
  | _, _, _, _ => True

/-- The condition on a `limits` request for the accepted limits, which assigns nothing: nothing else
is reserved, and these limits are the ones assigned. -/
def Repeats : Request → Config → Option UnitProperties → Option ProjectLimit → Prop
  | .limits target _, c, p, l =>
    c.acceptedQuotas = target →
      c.reservedQuotas.larger target = target ∧
        p = some ⟨target.memoryBytes, some target.cpuMillicores⟩ ∧
        l = some ⟨hardQuota target.sizeBytes / 1024, some (max 4096 (target.sizeBytes / 32768))⟩
  | _, _, _, _ => True

/-- What is known of an instance between requests: the assigned limits are within the reserved ones,
and a temporary cap is too. -/
structure Bounded (c : Config) (p : Option UnitProperties) (l : Option ProjectLimit) : Prop where
  within : Within p l c.memoryReservation c.sizeReservation
  reserved : c.restoreMemoryBytes.getD 0 ≤ c.memoryReservation
  temporary : c.restoreMemoryBytes.getD 0 ≤ max c.quotas.memoryBytes GIB

/-- The bounds and the condition look at the limits of a record only. -/
theorem Bounded.congr (h : Bounded c p l) (hquotas : c'.quotas = c.quotas)
    (haccepted : c'.acceptedQuotas = c.acceptedQuotas)
    (hreserved : c'.reservedQuotas = c.reservedQuotas)
    (hrestore : c'.restoreMemoryBytes = c.restoreMemoryBytes) : Bounded c' p l := by
  have hmemory : c'.memoryReservation = c.memoryReservation := by
    simp only [Config.memoryReservation, hquotas, haccepted, hreserved]
  have hsize : c'.sizeReservation = c.sizeReservation := by
    simp only [Config.sizeReservation, hquotas, haccepted, hreserved]
  refine ⟨?_, ?_, ?_⟩
  · rw [hmemory, hsize]
    exact h.within
  · rw [hrestore, hmemory]
    exact h.reserved
  · rw [hrestore, hquotas]
    exact h.temporary

theorem restoreLimits_le (c : Config) :
    c.quotas.memoryBytes ≤ c.restoreLimits.memoryBytes ∧
      c.restoreLimits.memoryBytes ≤ max c.quotas.memoryBytes GIB := by
  unfold Config.restoreLimits
  cases c.engine with
  | mongo => exact ⟨Nat.le_max_left _ _, le_rfl⟩
  | postgres => exact ⟨le_rfl, Nat.le_max_left _ _⟩

/-- **One edit keeps the assigned limits within the reserved ones**, when its request started in a
state that admits it. -/
theorem Edit.bounded {v : View} (h : Edit platform q v c c') (hb : Bounded c v.properties v.limit)
    (ha : Admits q c v.properties v.limit) :
    Bounded c' v.properties v.limit ∧ Admits q c' v.properties v.limit := by
  cases h with
  | flags running project ready admin hmarks =>
    refine ⟨hb.congr rfl rfl rfl rfl, ?_⟩
    cases q with
    | limits target reservations => exact ha
    | restoreBegin backupSha256 => exact ha
    | restoreFinish state => exact ha
    | copy arguments => exact ha
    | _ => exact ha
  | @reserved target reservations _ _ others hothers hfits =>
    obtain ⟨hrestore, hwithin⟩ := ha
    refine ⟨⟨?_, ?_, ?_⟩, hrestore, ?_⟩
    · refine hwithin.mono ?_ ?_
      all_goals
        simp only [Config.memoryReservation, Config.sizeReservation, Config.reserve, Quotas.larger]
        omega
    · exact hrestore.trans (Nat.le_max_left _ _)
    · exact hrestore.trans (Nat.le_max_left _ _)
    · refine hwithin.mono ?_ ?_
      all_goals
        simp only [Config.reserve, Quotas.larger]
        omega
  | @accepted target reservations _ _ hquotas hproperties hlimit =>
    obtain ⟨hrestore, -⟩ := ha
    subst hquotas
    have hwithin : Within v.properties v.limit c.quotas.memoryBytes c.quotas.sizeBytes := by
      rw [hproperties, hlimit]
      exact within_projectLimit (Nat.max_le.mpr ⟨le_rfl, hrestore⟩)
    refine ⟨⟨?_, ?_, ?_⟩, hrestore, ?_⟩
    · exact hwithin.mono (Nat.le_max_left _ _) (Nat.le_max_left _ _)
    · exact hrestore.trans (Nat.le_max_left _ _)
    · exact hrestore.trans (Nat.le_max_left _ _)
    · exact hwithin.mono (Nat.le_max_left _ _) (Nat.le_max_left _ _)
  | @restoreBegun backupSha256 _ _ others hnew hothers hfits =>
    obtain ⟨hle, hge⟩ := restoreLimits_le c
    have hwithin := ha.resolve_left hnew
    refine ⟨⟨?_, ?_, hge⟩, .inr hwithin⟩
    · refine hwithin.mono ?_ le_rfl
      simp only [Config.memoryReservation, Config.beginRestore]
      omega
    · simp only [Config.memoryReservation, Config.beginRestore, Option.getD_some]
      omega
  | @restoreFinished backupSha256 state _ _ hpending hproperties =>
    have hwithin := ha.resolve_left (by rw [hpending]; simp)
    refine ⟨⟨⟨?_, ?_, ?_⟩, Nat.zero_le _, Nat.zero_le _⟩, .inl rfl⟩
    · rw [hproperties]
      exact Nat.le_max_left _ _
    · refine (hwithin.mono le_rfl ?_).blocks
      simp only [Config.sizeReservation, Config.finishRestore]
      omega
    · refine (hwithin.mono le_rfl ?_).inodes
      simp only [Config.sizeReservation, Config.finishRestore]
      omega
  | @boosted arguments _ _ others hengine hsmall hothers hfits =>
    obtain ⟨hlarge, hwithin⟩ := ha hengine hsmall
    refine ⟨⟨?_, ?_, ?_⟩, ha⟩
    · refine hwithin.mono ?_ ?_
      all_goals
        simp only [Config.memoryReservation, Config.sizeReservation, Config.boost,
          Config.copyLimits]
        omega
    · simp only [Config.memoryReservation, Config.boost, Config.copyLimits, Option.getD_some]
      omega
    · simp only [Config.boost, Config.copyLimits, Option.getD_some]
      omega
  | @unboosted arguments _ _ hengine hsmall =>
    obtain ⟨hlarge, hwithin⟩ := ha hengine hsmall
    refine ⟨⟨?_, Nat.zero_le _, Nat.zero_le _⟩, ha⟩
    refine hwithin.mono ?_ ?_
    all_goals
      simp only [Config.memoryReservation, Config.sizeReservation, Config.unboost]
      omega
  | created hips => exact ⟨hb.congr rfl rfl rfl rfl, ha⟩
  | restoreCreated hips hempty => exact ⟨hb.congr rfl rfl rfl rfl, ha⟩
  | allowed hsupplied hallow =>
    rcases Config.allow_eq_ok hallow with ⟨ips, parked, rfl⟩
    exact ⟨hb.congr rfl rfl rfl rfl, ha⟩
  | copied hverified hswitched => exact ⟨hb.congr rfl rfl rfl rfl, ha⟩
  | @frozen role =>
    rcases c.freeze_eq role with ⟨sourceRole, heq⟩
    rw [heq]
    exact ⟨hb.congr rfl rfl rfl rfl, ha⟩
  | aborted => exact ⟨hb.congr rfl rfl rfl rfl, ha⟩
  | sealed hsealed =>
    rw [Config.sealed_eq_ok hsealed]
    exact ⟨hb.congr rfl rfl rfl rfl, ha⟩

/-- What the step of a request assigns is within what the record reserves. -/
theorem Assigns.bounded {new : UnitProperties} (h : Assigns q c new) (hb : Bounded c p l)
    (ha : Admits q c p l) :
    Bounded c (some (new.over p)) l ∧ Admits q c (some (new.over p)) l := by
  cases h with
  | applied happlies =>
    have hmemory : c.unitProperties.memoryMax ≤ c.memoryReservation :=
      Nat.max_le.mpr ⟨Nat.le_max_left _ _, hb.reserved⟩
    refine ⟨⟨hb.within.properties hmemory, hb.reserved, hb.temporary⟩, ?_⟩
    cases q with
    | limits target reservations =>
      obtain ⟨hrestore, hwithin⟩ := ha
      obtain rfl : c.quotas = target := happlies
      refine ⟨hrestore, hwithin.properties ?_⟩
      exact (Nat.max_le.mpr ⟨le_rfl, hrestore⟩).trans (Nat.le_max_left _ _)
    | restoreBegin backupSha256 => exact happlies.elim
    | restoreFinish state => exact happlies.elim
    | copy arguments =>
      intro hengine hsmall
      obtain ⟨hlarge, hwithin⟩ := ha hengine hsmall
      refine ⟨hlarge, hwithin.properties ?_⟩
      have htemporary := hb.temporary
      simp only [Config.unitProperties, Config.memoryMax]
      omega
    | _ => exact ha
  | @begun backupSha256 d =>
    have hmemory : d.restoreLimits.memoryBytes ≤ (d.beginRestore backupSha256).memoryReservation :=
      (Nat.le_max_right _ _).trans (Nat.le_max_right _ _)
    refine ⟨⟨hb.within.properties hmemory, hb.reserved, hb.temporary⟩, ?_⟩
    exact ha.imp_right fun hwithin => hwithin.properties (Nat.le_max_left _ _)
  | finished =>
    have hmemory : c.quotas.memoryBytes ≤ c.memoryReservation := Nat.le_max_left _ _
    refine ⟨⟨hb.within.properties hmemory, hb.reserved, hb.temporary⟩, ?_⟩
    exact ha.imp_right fun hwithin => hwithin.properties hmemory

/-- So is the limit of its project. -/
theorem Request.applies.bounded (h : q.applies c.quotas) (hb : Bounded c p l)
    (ha : Admits q c p l) :
    Bounded c p (some c.projectLimit) ∧ Admits q c p (some c.projectLimit) := by
  refine ⟨⟨hb.within.limit (Nat.le_max_left _ _), hb.reserved, hb.temporary⟩, ?_⟩
  cases q with
  | limits target reservations =>
    obtain ⟨hrestore, hwithin⟩ := ha
    obtain rfl : c.quotas = target := h
    exact ⟨hrestore, hwithin.limit (Nat.le_max_left _ _)⟩
  | restoreBegin backupSha256 => exact h.elim
  | restoreFinish state => exact h.elim
  | copy arguments =>
    intro hengine hsmall
    obtain ⟨hlarge, hwithin⟩ := ha hengine hsmall
    exact ⟨hlarge, hwithin.limit (Nat.le_max_left _ _)⟩
  | _ => exact ha

/-! ## Steps -/

/-- Nothing is assigned where there is no record. -/
structure Unassigned (s : Host) : Prop where
  properties : ∀ i, s.configs.lookup i = none → s.properties i = none
  limits : ∀ project, 10000 ≤ project → (s.limits project).isSome →
    ∃ i c, s.configs.lookup i = some c ∧ c.projectId = project

/-- The limits of an instance are bounded, and admit the request that runs on it. -/
def Kept (q : Request) (i : InstanceId) (s : Host) : Prop :=
  ∀ c, s.configs.lookup i = some c →
    Bounded c (s.properties i) (s.limits c.projectId) ∧
      Admits q c (s.properties i) (s.limits c.projectId)

variable {s s' : Host} {t : Write ⊕ Command}

/-- A new instance has nothing assigned to it. -/
theorem Unassigned.new (h : Unassigned s) {port : Nat} (hc : s.configs.lookup i = none)
    (hs : Exclusive s) (hfree : ∀ j, ¬ Holds s j port) (hmin : PORT_MIN ≤ port) :
    s.properties i = none ∧ s.limits (10000 + port - 30000) = none := by
  have hbase : PORT_MIN = 30000 := rfl
  refine ⟨h.properties i hc, Option.not_isSome_iff_eq_none.mp fun hsome => ?_⟩
  rcases h.limits _ (by omega) hsome with ⟨j, c, hj, hproject⟩
  obtain ⟨hcmin, -, hcproject⟩ := hs.config j c hj
  exact hfree j (.inl ⟨c, hj, by omega⟩)

theorem admits_of_creates (h : q.creates = true) : Admits q c p l := by
  cases q with
  | create owner engine quotas allowIps reservations => exact trivial
  | restoreCreate owner engine quotas allowIps reservations port => exact trivial
  | _ => exact absurd h (by simp [Request.creates])

/-- A step of a request that deletes nothing leaves nothing assigned where there is no record. -/
theorem Change.unassigned (h : Change platform i q s t s') (hremoves : q.removes = false)
    (hu : Unassigned s) : Unassigned s' := by
  have hput : ∀ c c', s.configs.lookup i = some c → c'.projectId = c.projectId →
      Unassigned (s.put i c') := by
    intro c c' hc hproject
    refine ⟨fun j hj => ?_, fun project hle hsome => ?_⟩
    · refine hu.properties j ?_
      rw [lookup_put] at hj
      split at hj
      · cases hj
      · exact hj
    · rcases hu.limits project hle hsome with ⟨j, d, hd, hproject'⟩
      by_cases hj : j = i
      · subst hj
        cases hc.symm.trans hd
        exact ⟨j, c', by rw [lookup_put, if_pos rfl], hproject.trans hproject'⟩
      · exact ⟨j, d, (lookup_put_of_ne hj).trans hd, hproject'⟩
  cases h with
  | silent _ hconfigs _ _ hproperties hlimits =>
    refine ⟨fun j hj => ?_, fun project hle hsome => ?_⟩
    · rw [hproperties]
      exact hu.properties j (hconfigs ▸ hj)
    · rw [hlimits project hle] at hsome
      rw [hconfigs]
      exact hu.limits project hle hsome
  | create _ hc =>
    refine ⟨fun j hj => ?_, fun project hle hsome => ?_⟩
    · refine hu.properties j ?_
      rw [lookup_put] at hj
      split at hj
      · cases hj
      · exact hj
    · rcases hu.limits project hle hsome with ⟨j, d, hd, hproject⟩
      have hj : j ≠ i := by
        rintro rfl
        cases hc.symm.trans hd
      exact ⟨j, d, (lookup_put_of_ne hj).trans hd, hproject⟩
  | @edit c c' hc hedit => exact hput c c' hc hedit.port.2
  | @limit c hc happlies =>
    refine ⟨hu.properties, fun project hle hsome => ?_⟩
    by_cases hproject : project = c.projectId
    · exact ⟨i, c, hc, hproject.symm⟩
    · refine hu.limits project hle ?_
      rwa [← assign_of_ne s.limits (some c.projectLimit) hproject]
  | @properties c new hc hassigns =>
    refine ⟨fun j hj => ?_, hu.limits⟩
    have hne : j ≠ i := by
      rintro rfl
      cases hj.symm.trans hc
    exact (assign_of_ne s.properties _ hne).trans (hu.properties j hj)
  | rename hq => cases hremoves.symm.trans hq
  | record hc => exact ⟨hu.properties, hu.limits⟩
  | trash => exact ⟨hu.properties, hu.limits⟩
  | unlink _ _ => exact ⟨hu.properties, hu.limits⟩

/-- **One step keeps the limits of its instance.** -/
theorem Change.kept (h : Change platform i q s t s') (hremoves : q.removes = false)
    (hs : Exclusive s) (hu : Unassigned s) (hk : Kept q i s) : Kept q i s' := by
  intro c' hc'
  cases h with
  | silent _ hconfigs _ _ hproperties hlimits =>
    rw [hconfigs] at hc'
    rw [hproperties, hlimits _ (hs.le_project hc')]
    exact hk c' hc'
  | @create owner engine port target hcreates hnone _ _ hfree hmin =>
    rw [lookup_put, if_pos rfl] at hc'
    obtain rfl := Option.some.inj hc'
    obtain ⟨hproperties, hlimits⟩ := hu.new hnone hs hfree hmin
    change Bounded _ (s.properties i) (s.limits (10000 + port - 30000)) ∧ _
    rw [hproperties, hlimits]
    refine ⟨⟨⟨Nat.zero_le _, Nat.zero_le _, Nat.zero_le _⟩, Nat.zero_le _, Nat.zero_le _⟩, ?_⟩
    exact admits_of_creates hcreates
  | @edit c d hc hedit =>
    rw [lookup_put, if_pos rfl] at hc'
    obtain rfl := Option.some.inj hc'
    have hlimit : (view i s).limit = s.limits c.projectId := by
      simp only [view, hc, Option.bind_some]
    obtain ⟨hb, ha⟩ := hk c hc
    have hedited := hedit.bounded (hlimit ▸ hb) (hlimit ▸ ha)
    rw [hlimit, ← hedit.port.2] at hedited
    exact hedited
  | @limit c hc happlies =>
    obtain rfl := Option.some.inj (hc.symm.trans hc')
    obtain ⟨hb, ha⟩ := hk c hc
    simp only [assign_self]
    exact happlies.bounded hb ha
  | @properties c new hc hassigns =>
    obtain rfl := Option.some.inj (hc.symm.trans hc')
    obtain ⟨hb, ha⟩ := hk c hc
    simp only [assign_self]
    exact hassigns.bounded hb ha
  | rename hq => exact absurd (hremoves.symm.trans hq) (by simp)
  | record hc => exact hk c' hc'
  | trash => exact hk c' hc'
  | unlink _ _ => exact hk c' hc'

/-- The limits of an instance that a step leaves alone. -/
theorem Kept.of_view (h : Kept q i s) (hview : view i s' = view i s) : Kept q i s' := by
  obtain ⟨hconfig, -, -, hproperties, hlimit, -⟩ := View.mk.inj hview
  intro c hc
  rw [hc] at hconfig
  have hlimits : s'.limits c.projectId = s.limits c.projectId := by
    simpa only [hc, ← hconfig, Option.bind_some] using hlimit
  rw [hproperties, hlimits]
  exact h c hconfig.symm

/-! ## Runs -/

/-- A step that keeps to the limits: a request deletes nothing, and it starts in a state that admits
it. -/
def keepsLimits (m : ManagerState) (l : ManagerLabel) : Prop :=
  ∀ i q, l = .start i q → q.removes = false ∧ ∀ c, m.state.configs.lookup i = some c →
    Admits q c (m.state.properties i) (m.state.limits c.projectId) ∧
      Repeats q c (m.state.properties i) (m.state.limits c.projectId)

/-- What holds of all instances, with what is known of the requests that run on them. -/
structure LimitsInv (m : ManagerState) : Prop where
  unassigned : Unassigned m.state
  bounded : ∀ i c, m.state.configs.lookup i = some c →
    Bounded c (m.state.properties i) (m.state.limits c.projectId)
  running : ∀ i q rest, m.threads i = some ⟨q, rest⟩ → q.removes = false ∧ Kept q i m.state

theorem kept_start (h : ∀ c, s.configs.lookup i = some c →
    Bounded c (s.properties i) (s.limits c.projectId)) : Kept .start i s :=
  fun c hc => ⟨h c hc, trivial⟩

/-- **One step of the manager keeps the limits of all instances.** -/
theorem LimitsInv.step {m m' : ManagerState} {l : ManagerLabel} (h : LimitsInv m)
    (hsound : Machine.Sound (service platform) (agreement platform) (fun _ _ _ _ => True) m)
    (hstep : Machine.step (service platform) m l m') (hok : keepsLimits m l) : LimitsInv m' := by
  cases he : m.event (service platform) l with
  | none =>
    have hstate : m'.state.configs = m.state.configs ∧ m'.state.properties = m.state.properties ∧
        m'.state.limits = m.state.limits := by
      rcases Machine.state_of_next hstep he with heq | ⟨-, heq⟩
      · rw [heq]
        exact ⟨rfl, rfl, rfl⟩
      · rw [heq]
        exact ⟨rfl, rfl, rfl⟩
    obtain ⟨hconfigs, hproperties, hlimits⟩ := hstate
    refine ⟨⟨?_, ?_⟩, ?_, ?_⟩
    · rw [hconfigs, hproperties]
      exact h.unassigned.properties
    · rw [hconfigs, hlimits]
      exact h.unassigned.limits
    · rw [hconfigs, hproperties, hlimits]
      exact h.bounded
    · intro i q rest hrest
      unfold Kept
      rw [hconfigs, hproperties, hlimits]
      rcases Machine.request_of_next hstep hrest with ⟨rest', hrest'⟩ | hl
      · exact h.running i q rest' hrest'
      · obtain ⟨hremoves, hadmits⟩ := hok i q hl
        exact ⟨hremoves, fun c hc => ⟨h.bounded i c hc, (hadmits c hc).1⟩⟩
  | some e =>
    obtain ⟨j, q, t⟩ := e
    have hkeeps := hsound.keeps hstep he
    have hchange : Change platform j q m.state t m'.state := hkeeps.change
    obtain ⟨rest, hrest⟩ := Machine.thread_of_event he
    obtain ⟨hremoves, hkept⟩ := h.running j q rest hrest
    have hkept' := hchange.kept hremoves hsound.inv h.unassigned hkept
    refine ⟨hchange.unassigned hremoves h.unassigned, ?_, ?_⟩
    · intro i c hc
      by_cases hij : i = j
      · subst hij
        exact (hkept' c hc).1
      · exact ((kept_start (h.bounded i)).of_view (hkeeps.others i hij) c hc).1
    · intro i q' rest' hrest'
      rcases Machine.request_of_next hstep hrest' with ⟨rest₀, hrest₀⟩ | hl
      · by_cases hij : i = j
        · subst hij
          obtain ⟨rfl, -⟩ := Thread.mk.inj (Option.some.inj (hrest.symm.trans hrest₀))
          exact ⟨hremoves, hkept'⟩
        · obtain ⟨hremoves', hkept₀⟩ := h.running i q' rest₀ hrest₀
          exact ⟨hremoves', hkept₀.of_view (hkeeps.others i hij)⟩
      · rw [hl] at he
        exact absurd he (by simp [Machine.event])

/-- The limits of an instance are the requested ones in all three records, and those last assigned
to `systemd` and XFS. -/
structure Settled (s : Host) (i : InstanceId) (target : Quotas) (c : Config) : Prop where
  quotas : c.quotas = target
  accepted : c.acceptedQuotas = target
  reserved : c.reservedQuotas = target
  properties : s.properties i = some ⟨target.memoryBytes, some target.cpuMillicores⟩
  limit : s.limits c.projectId =
    some ⟨hardQuota target.sizeBytes / 1024, some (max 4096 (target.sizeBytes / 32768))⟩

/-- A `limits` request that starts in a state that admits it settles the limits, or raises. -/
theorem settled_of_limitsDone {target : Quotas} {reservations : Reservations}
    (hc : s.configs.lookup i = some c) (hdone : LimitsDone target c (view i s) (view i s'))
    (hadmits : Admits (.limits target reservations) c (s.properties i) (s.limits c.projectId))
    (hrepeats : Repeats (.limits target reservations) c (s.properties i) (s.limits c.projectId)) :
    ∃ d, s'.configs.lookup i = some d ∧ Settled s' i target d := by
  have hlimit : ∀ d, s'.configs.lookup i = some d →
      (view i s').limit = s'.limits d.projectId := by
    intro d hd
    simp only [view, hd, Option.bind_some]
  by_cases haccepted : c.acceptedQuotas = target
  · obtain ⟨ready, hconfig, hproperties, hl⟩ := hdone.unchanged haccepted
    obtain ⟨hreserved, hp, hlim⟩ := hrepeats haccepted
    refine ⟨_, hconfig, rfl, haccepted, hreserved, hproperties.trans hp, ?_⟩
    rw [← hlimit _ hconfig, hl]
    simp only [view, hc, Option.bind_some]
    exact hlim
  · obtain ⟨ready, hconfig, hproperties, hl⟩ := hdone.changed haccepted
    refine ⟨_, hconfig, rfl, rfl, rfl, ?_, ?_⟩
    · have hmemory : (c.reserve target).memoryMax = target.memoryBytes :=
        Nat.max_eq_left hadmits.1
      have hunit : (c.reserve target).unitProperties =
          ⟨target.memoryBytes, some target.cpuMillicores⟩ := by
        unfold Config.unitProperties
        rw [hmemory]
        rfl
      rw [← hunit]
      exact hproperties
    · rw [← hlimit _ hconfig]
      exact hl

/-- What a request promises when it returns: `limits` has settled its limits. -/
def Promise (i : InstanceId) (q : Request) (r : Except InstanceError Unit) (s : Host) : Prop :=
  ∀ target reservations, q = .limits target reservations → r = .ok () →
    ∃ c, s.configs.lookup i = some c ∧ Settled s i target c

/-- A request that starts in a state that admits it keeps its promise. -/
theorem ensures_promise {m : ManagerState} (hs : Exclusive m.state)
    (hok : keepsLimits m (.start i q)) :
    (dispatch platform i q).Ensures setting ((agreement platform).contract i q) m.state
      (Promise i q) := by
  obtain ⟨-, hadmits⟩ := hok i q rfl
  cases q with
  | limits target reservations =>
    refine (ensures_of_spec hs fun v => spec_limits).mono ?_
    rintro r s' hdone _ _ ⟨⟩ hr
    obtain ⟨c, hc, hlimits⟩ := hdone hr
    obtain ⟨ha, hrep⟩ := hadmits c hc
    exact settled_of_limitsDone hc hlimits ha hrep
  | _ =>
    refine (ensures_dispatch platform i _ hs).mono ?_
    rintro r s' - _ _ ⟨⟩

/-- The request of an instance that has just returned without an error. -/
def returned (m : ManagerState) (i : InstanceId) : Option Request :=
  match m.threads i with
  | some ⟨q, .done (.ok _)⟩ => some q
  | _ => none

theorem thread_of_returned {m : ManagerState} (h : returned m i = some q) :
    m.threads i = some ⟨q, .done (.ok ())⟩ := by
  unfold returned at h
  split at h
  next hthread =>
    cases h
    exact hthread
  next => cases h

/-- **Limits along a run.**  The reservations stay within the budgets.  When every request starts in
a state that admits it, what is assigned to an instance stays within what its record reserves, and a
`limits` request that returns has settled the limits it was asked for. -/
theorem limits_of_run {ls : List ManagerLabel} {m : ManagerState}
    (h : ManagerRun platform keepsLimits ls m) :
    Reserved platform m.state ∧
      (∀ i c, m.state.configs.lookup i = some c →
        Within (m.state.properties i) (m.state.limits c.projectId) c.memoryReservation
          c.sizeReservation) ∧
      ∀ i target reservations, returned m i = some (.limits target reservations) →
        ∃ c, m.state.configs.lookup i = some c ∧ Settled m.state i target c := by
  refine ⟨reserved_of_run h, ?_, ?_⟩
  · have hinv : LimitsInv m := by
      induction h with
      | nil =>
        refine ⟨⟨fun _ _ => rfl, fun _ _ hsome => ?_⟩, fun i c hc => ?_, fun i q rest hrest => ?_⟩
        · exact absurd hsome (by simp [Machine.idle, Host.empty])
        · exact absurd hc (by simp [Machine.idle, Host.empty])
        · exact absurd hrest (by simp [Machine.idle])
      | snoc hrun hstep ih => exact ih.step (sound_of_run' hrun) hstep.1 hstep.2
    exact fun i c hc => (hinv.bounded i c hc).within
  · intro i target reservations hreturned
    have hsound := sound_of_service h fun m i q hm hok => ensures_promise hm hok
    have hensures := hsound.threads i _ _ (thread_of_returned hreturned)
    exact hensures m.state ((Protocol.contract_closed _ _ _).refl _) target reservations rfl rfl

/-! ## A change that is half applied -/

instance decidableAdmits (c : Config) (p : Option UnitProperties) (l : Option ProjectLimit) :
    (q : Request) → Decidable (Admits q c p l)
  | .limits _ _ => inferInstanceAs (Decidable (_ ∧ _))
  | .restoreBegin _ => inferInstanceAs (Decidable (_ ∨ _))
  | .restoreFinish _ => inferInstanceAs (Decidable (_ ∨ _))
  | .copy _ => inferInstanceAs (Decidable (_ → _ → _ ∧ _))
  | .create _ _ _ _ _ | .restoreCreate _ _ _ _ _ _ | .remove _ | .allow _ _ _ | .start | .stop
  | .freeze _ | .abortCopy _ | .sealCopy _ | .restore => .isTrue trivial

instance decidableRepeats (c : Config) (p : Option UnitProperties) (l : Option ProjectLimit) :
    (q : Request) → Decidable (Repeats q c p l)
  | .limits _ _ => inferInstanceAs (Decidable (_ → _ ∧ _ ∧ _))
  | .restoreBegin _ | .restoreFinish _ | .copy _ | .create _ _ _ _ _ | .restoreCreate _ _ _ _ _ _
  | .remove _ | .allow _ _ _ | .start | .stop | .freeze _ | .abortCopy _ | .sealCopy _
  | .restore => .isTrue trivial

/-- Whether a step keeps to the limits. -/
def checkLimits (m : ManagerState) : ManagerLabel → Bool
  | .start i q => !q.removes && (m.state.configs.lookup i).all fun c =>
    Admits q c (m.state.properties i) (m.state.limits c.projectId) &&
      Repeats q c (m.state.properties i) (m.state.limits c.projectId)
  | _ => true

theorem keepsLimits_of_check {m : ManagerState} {l : ManagerLabel} (h : checkLimits m l = true) :
    keepsLimits m l := by
  rintro i q rfl
  simp only [checkLimits, Bool.and_eq_true, Bool.not_eq_true'] at h
  refine ⟨h.1, fun c hc => ?_⟩
  simpa [hc] using h.2

/-- The limits of a larger instance. -/
def largeQuotas : Quotas := ⟨2 * GIB, 20, 1024 * MIB, 1000⟩

/-- An instance with small limits. -/
def created : List ManagerLabel :=
  served "a" (.create "app" .postgres smallQuotas [] ⟨0, 0⟩) 53

/-- A change to larger limits, up to the point where they are assigned, and a stop. -/
def halfApplied : List ManagerLabel :=
  .start "a" (.limits largeQuotas ⟨0, 0⟩) ::
    (List.replicate 24 (.advance "a" (.succeeded 0)) ++ [.stop])

/-- A change that returns has settled the limits. -/
theorem limits_of_change : ∃ (m : ManagerState) (c : Config),
    returned m "a" = some (.limits largeQuotas ⟨0, 0⟩) ∧
      m.state.configs.lookup "a" = some c ∧ Settled m.state "a" largeQuotas c := by
  obtain ⟨m, hrun, hm⟩ := exists_run_of_play exampleHost checkLimits
    (created ++ .start "a" (.limits largeQuotas ⟨0, 0⟩) ::
      List.replicate 34 (.advance "a" (.succeeded 0)))
    (fun m => returned m "a") (some (.limits largeQuotas ⟨0, 0⟩))
    (fun _ _ h => keepsLimits_of_check h) (by decide +kernel)
  obtain ⟨c, hc, hsettled⟩ := (limits_of_run hrun).2.2 "a" largeQuotas ⟨0, 0⟩ hm
  exact ⟨m, c, hm, hc, hsettled⟩

/-- **Going back from a change that is half applied assigns nothing.**  The request returns, the
record has the small limits again, and the large ones are still reserved and assigned. -/
theorem limits_return_unassigned : ∃ (ls : List ManagerLabel) (m : ManagerState) (c : Config),
    ManagerRun exampleHost (fun _ _ => True) ls m ∧
      returned m "a" = some (.limits smallQuotas ⟨0, 0⟩) ∧
      m.state.configs.lookup "a" = some c ∧ c.quotas = smallQuotas ∧
      c.reservedQuotas ≠ smallQuotas ∧
      m.state.properties "a" = some ⟨largeQuotas.memoryBytes, some largeQuotas.cpuMillicores⟩ := by
  obtain ⟨m, hrun, hm⟩ := exists_run_of_play exampleHost (fun _ _ => true)
    (created ++ halfApplied ++ .start "a" (.limits smallQuotas ⟨0, 0⟩) ::
      List.replicate 16 (.advance "a" (.succeeded 0)))
    (fun m => (returned m "a", m.state.properties "a",
      (m.state.configs.lookup "a").map fun c => (c.quotas, c.reservedQuotas)))
    (some (.limits smallQuotas ⟨0, 0⟩),
      some ⟨largeQuotas.memoryBytes, some largeQuotas.cpuMillicores⟩, some (smallQuotas, largeQuotas))
    (fun _ _ _ => trivial) (by decide +kernel)
  obtain ⟨hreturned, hfields⟩ := Prod.mk.inj hm
  obtain ⟨hproperties, hrecord⟩ := Prod.mk.inj hfields
  obtain ⟨c, hc, hlimits⟩ := Option.map_eq_some_iff.mp hrecord
  obtain ⟨hquotas, hreserved⟩ := Prod.mk.inj hlimits
  refine ⟨_, m, c, hrun, hreturned, hc, hquotas, ?_, hproperties⟩
  rw [hreserved]
  decide +kernel

end StorageInstances
end OpenstackPlatform
