import OpenstackPlatform.StorageInstances.Agreement

/-!
# The steps of the manager keep the agreement

One rule for each change to the host: a thread that owns the view `v` and takes the step owns the
view that the rule names, the other threads own what they owned, and the ports stay exclusive.
-/

namespace OpenstackPlatform
namespace StorageInstances

open Library Protocol

variable {platform : Platform} {i : InstanceId} {q : Request}

/-! ## Views -/

variable {s s' : Host}

theorem holds_congr (hconfigs : s'.configs = s.configs)
    (hrecords : s'.deletingRecords = s.deletingRecords) : Holds s' = Holds s := by
  funext j port
  simp only [Holds, hconfigs, hrecords]

theorem rest_congr (hconfigs : s'.configs = s.configs)
    (hrecords : s'.deletingRecords = s.deletingRecords) (j : InstanceId) :
    s'.rest j = s.rest j := by
  simp only [Host.rest, holds_congr hconfigs hrecords, hconfigs]

theorem exclusive_congr (hconfigs : s'.configs = s.configs)
    (hrecords : s'.deletingRecords = s.deletingRecords) (htrash : s'.trash = s.trash)
    (h : Exclusive s) : Exclusive s' where
  config := by simpa only [hconfigs] using h.config
  record := by simpa only [hrecords] using h.record
  same := by simpa only [hconfigs, hrecords] using h.same
  trash := by simpa only [hconfigs, hrecords, htrash] using h.trash
  unique := by simpa only [holds_congr hconfigs hrecords] using h.unique

variable {j : InstanceId} {c : Config}

/-- The projects of instances are above those of the shared directories. -/
theorem Exclusive.le_project (h : Exclusive s) (hc : s.configs.lookup j = some c) :
    10000 ≤ c.projectId := by
  obtain ⟨hmin, -, hproject⟩ := h.config j c hc
  have : PORT_MIN = 30000 := rfl
  omega

/-- Different instances have different projects. -/
theorem Exclusive.project_ne (h : Exclusive s) {k : InstanceId} {d : Config}
    (hc : s.configs.lookup j = some c) (hd : s.configs.lookup k = some d) (hne : j ≠ k) :
    c.projectId ≠ d.projectId := by
  intro heq
  obtain ⟨hc₁, -, hc₂⟩ := h.config j c hc
  obtain ⟨hd₁, -, hd₂⟩ := h.config k d hd
  have hmin : PORT_MIN = 30000 := rfl
  have hport : c.port = d.port := by omega
  exact hne (h.unique j k d.port (.inl ⟨c, hc, hport⟩) (.inl ⟨d, hd, rfl⟩))

/-- The files and limits of an instance, when a step leaves them and the lock alone. -/
theorem view_congr (hexclusive : Exclusive s) (hconfigs : s'.configs = s.configs)
    (hrecords : s'.deletingRecords = s.deletingRecords) (htrash : s'.trash = s.trash)
    (hproperties : s'.properties = s.properties)
    (hlimits : ∀ project, 10000 ≤ project → s'.limits project = s.limits project)
    (hlock : s'.lock = s.lock) : view j s' = view j s := by
  have hlimit : ((s.configs.lookup j).bind fun c => s'.limits c.projectId) =
      (s.configs.lookup j).bind fun c => s.limits c.projectId := by
    cases hc : s.configs.lookup j with
    | none => rfl
    | some c => exact hlimits _ (hexclusive.le_project hc)
  simp only [view, hconfigs, hrecords, htrash, hproperties, hlimit, hlock,
    rest_congr hconfigs hrecords]

/-! ## Rules -/

/-- The rules below, for the manager's agreement. -/
abbrev Spec (platform : Platform) (i : InstanceId) (q : Request) {α : Type} (A : View → Prop)
    (p : Action α) (Q : α → View → Prop) (E : View → Prop) : Prop :=
  (agreement platform).Triple setting i q A p Q E

/-- A step that no thread can tell. -/
theorem keeps_silent {l : Write ⊕ Command} (h : Exclusive s) (hl : ∀ j c, l ≠ .inl (.save j c))
    (hconfigs : s'.configs = s.configs) (hrecords : s'.deletingRecords = s.deletingRecords)
    (htrash : s'.trash = s.trash) (hproperties : s'.properties = s.properties)
    (hlimits : ∀ project, 10000 ≤ project → s'.limits project = s.limits project)
    (hlock : ∀ j, j ≠ i → (s'.lock = some j ↔ s.lock = some j)) :
    (agreement platform).Keeps i q s l s' where
  inv := exclusive_congr hconfigs hrecords htrash h
  others j hj := by
    have hview : view j { s' with lock := s.lock } = view j s := view_congr h hconfigs hrecords htrash hproperties hlimits rfl
    change view j s' = view j s
    rw [← hview]
    simp only [view, hlock j hj]
    rfl
  change := .silent hl hconfigs hrecords htrash hproperties hlimits

variable {v : View} {E : View → Prop}

/-- Take the shared lock. -/
theorem spec_acquire : Spec platform i q (· = v) (Process.commit (.acquire i))
      (fun _ v' => ∃ o, v' = { v with others := some o }) E := by
  refine triple_commit ?_ ?_
  · intro s u hs hv hready hexec
    cases hexec
    have hnone : s.lock = none := by simpa [setting, Write.ready] using hready
    constructor
    · refine keeps_silent hs (by simp) rfl rfl rfl rfl (fun _ _ => rfl) ?_
      intro j hj
      simp [hnone, Ne.symm hj]
    · refine ⟨s.rest i, ?_⟩
      subst hv
      simp only [agreement, view, if_true]
      rfl
  · intro s e _ _ hexec
    exact absurd hexec (by simp [setting, Write.exec])

/-- Give it back. -/
theorem spec_release (hv : v.others.isSome) : Spec platform i q (· = v) (Process.commit .release)
      (fun _ v' => v' = { v with others := none }) E := by
  refine triple_commit ?_ ?_
  · intro s u hs hview _ hexec
    cases hexec
    subst hview
    have hlock : s.lock = some i := by
      by_contra hnot
      simp [agreement, view, hnot] at hv
    constructor
    · refine keeps_silent hs (by simp) rfl rfl rfl rfl (fun _ _ => rfl) ?_
      intro j hj
      simp [hlock, Ne.symm hj]
    · simp only [agreement, view]
      rfl
  · intro s e _ _ hexec
    exact absurd hexec (by simp [setting, Write.exec])

/-- The commands that change nothing a thread owns. -/
def Command.silent : Command → Bool
  | limitProject project _ => project < 10000
  | setProperty _ _ => false
  | removeTrash _ => false
  | _ => true

theorem keeps_effect (platform : Platform) (i : InstanceId) (q : Request) {c : Command}
    (h : Exclusive s) (hc : c.silent) :
    (agreement platform).Keeps i q s (.inr c) (c.effect s) ∧ view i (c.effect s) = view i s := by
  have key : (c.effect s).configs = s.configs ∧
      (c.effect s).deletingRecords = s.deletingRecords ∧ (c.effect s).trash = s.trash ∧
      (c.effect s).properties = s.properties ∧
      (∀ project, 10000 ≤ project → (c.effect s).limits project = s.limits project) ∧
      (c.effect s).lock = s.lock := by
    cases c with
    | limitProject project limit =>
      refine ⟨rfl, rfl, rfl, rfl, ?_, rfl⟩
      intro p hp
      have hlt : project < 10000 := by simpa [Command.silent] using hc
      exact assign_of_ne _ _ (by omega)
    | setProperty j p => exact absurd hc (by simp [Command.silent])
    | removeTrash j => exact absurd hc (by simp [Command.silent])
    | systemctl verb j =>
      cases verb
      all_goals exact ⟨rfl, rfl, rfl, rfl, fun _ _ => rfl, rfl⟩
    | _ => exact ⟨rfl, rfl, rfl, rfl, fun _ _ => rfl, rfl⟩
  obtain ⟨h₁, h₂, h₃, h₄, h₅, h₆⟩ := key
  exact ⟨keeps_silent h (by simp) h₁ h₂ h₃ h₄ h₅ fun j _ => by rw [h₆],
    view_congr h h₁ h₂ h₃ h₄ h₅ h₆⟩

/-- A step that changes nothing at all. -/
theorem keeps_refl {c : Command} (h : Exclusive s) : (agreement platform).Keeps i q s (.inr c) s :=
  keeps_silent h (by simp) rfl rfl rfl rfl (fun _ _ => rfl) fun _ _ => Iff.rfl

/-- A silent command keeps whatever is known of the view, whether it fails or not. -/
theorem spec_query {c : Command} (hc : c.silent) {A : View → Prop} (hE : ∀ v, A v → E v) :
    Spec platform i q A (Process.query c) (fun _ => A) E := by
  refine triple_query ?_
  intro s outcome hs hA
  obtain ⟨hkeeps, hview⟩ := keeps_effect platform i q hs hc
  cases outcome with
  | succeeded output =>
    refine ⟨hkeeps, ?_⟩
    change A (view i (c.effect s))
    rwa [hview]
  | failed effect =>
    cases effect with
    | true =>
      refine ⟨hkeeps, ?_⟩
      change E (view i (c.effect s))
      rw [hview]
      exact hE _ hA
    | false => exact ⟨keeps_refl hs, hE _ hA⟩

theorem spec_command {c : Command} (hc : c.silent) {A : View → Prop} (hE : ∀ v, A v → E v) :
    Spec platform i q A (command c) (fun _ => A) E :=
  triple_bind (spec_query hc hE) fun _ => triple_pure fun _ h => h

/-- The files that no thread reads of another. -/
def Write.silent : Write → Bool
  | secret _ => true
  | diskBudget _ => true
  | _ => false

theorem spec_write {t : Write} (ht : t.silent) {A : View → Prop} :
    Spec platform i q A (Process.commit t) (fun _ => A) E := by
  refine triple_commit ?_ ?_
  · intro s u hs hA _ hexec
    have key : u.configs = s.configs ∧ u.deletingRecords = s.deletingRecords ∧
        u.trash = s.trash ∧ u.properties = s.properties ∧ u.limits = s.limits ∧
        u.lock = s.lock := by
      cases t with
      | secret j =>
        cases hexec
        exact ⟨rfl, rfl, rfl, rfl, rfl, rfl⟩
      | diskBudget b =>
        cases hexec
        exact ⟨rfl, rfl, rfl, rfl, rfl, rfl⟩
      | _ => exact absurd ht (by simp [Write.silent])
    obtain ⟨h₁, h₂, h₃, h₄, h₅, h₆⟩ := key
    have h₅' : ∀ project, 10000 ≤ project → u.limits project = s.limits project :=
      fun project _ => congrFun h₅ project
    have hsave : ∀ j c, (Sum.inl t : Write ⊕ Command) ≠ .inl (.save j c) := by
      rintro j c ⟨⟩
      exact absurd ht (by simp [Write.silent])
    refine ⟨keeps_silent hs hsave h₁ h₂ h₃ h₄ h₅' fun j _ => by rw [h₆], ?_⟩
    change A (view i u)
    rw [view_congr hs h₁ h₂ h₃ h₄ h₅' h₆]
    exact hA
  · intro s e _ _ hexec
    cases t with
    | secret j => exact absurd hexec (by simp [setting, Write.exec])
    | diskBudget b => exact absurd hexec (by simp [setting, Write.exec])
    | _ => exact absurd ht (by simp [Write.silent])

/-! ## Records -/

variable {c' : Config}

/-- An edit keeps the identity of the instance. -/
theorem Edit.port (h : Edit platform q v c c') : c'.port = c.port ∧ c'.projectId = c.projectId := by
  cases h with
  | allowed _ hallow =>
    rcases Config.allow_eq_ok hallow with ⟨ips, parked, rfl⟩
    exact ⟨rfl, rfl⟩
  | @frozen role =>
    rcases c.freeze_eq role with ⟨sourceRole, heq⟩
    rw [heq]
    exact ⟨rfl, rfl⟩
  | sealed hsealed =>
    rw [Config.sealed_eq_ok hsealed]
    exact ⟨rfl, rfl⟩
  | _ => exact ⟨rfl, rfl⟩

theorem lookup_put (s : Host) (i j : InstanceId) (c : Config) :
    (s.put i c).configs.lookup j = if j = i then some c else s.configs.lookup j :=
  Table.lookup_insert_ite s.configs i j c

theorem lookup_put_of_ne (hj : j ≠ i) : (s.put i c).configs.lookup j = s.configs.lookup j := by
  rw [lookup_put, if_neg hj]

theorem holds_put_of_ne {port : Nat} (hj : j ≠ i) : Holds (s.put i c) j port ↔ Holds s j port := by
  simp only [Holds, lookup_put_of_ne hj]
  rfl

theorem holds_put (hc : s.configs.lookup i = some c) (hport : c'.port = c.port) :
    Holds (s.put i c') = Holds s := by
  funext j port
  by_cases hj : j = i
  · subst hj
    simp only [Holds, lookup_put, if_true, hc, Option.some.injEq, exists_eq_left', hport]
    rfl
  · exact propext (holds_put_of_ne hj)

/-- Ports stay exclusive when a record keeps its port. -/
theorem exclusive_put (h : Exclusive s) (hc : s.configs.lookup i = some c)
    (hport : c'.port = c.port ∧ c'.projectId = c.projectId) : Exclusive (s.put i c') where
  config j d hd := by
    rw [lookup_put] at hd
    split at hd
    · cases hd
      rw [hport.1, hport.2]
      exact h.config i c hc
    · exact h.config j d hd
  record := h.record
  same j d r hd hr := by
    rw [lookup_put] at hd
    split at hd
    next hj =>
      cases hd
      rw [hport.1]
      subst hj
      exact h.same j c r hc hr
    · exact h.same j d r hd hr
  trash j d hd := by
    obtain ⟨hnone, hrecord⟩ := h.trash j d hd
    have hj : j ≠ i := by
      rintro rfl
      rw [hc] at hnone
      cases hnone
    exact ⟨(lookup_put_of_ne hj).trans hnone, hrecord⟩
  unique := by
    rw [holds_put hc hport.1]
    exact h.unique

/-- A new record keeps ports exclusive, when nobody holds its port and nothing is left of an older
instance of the name. -/
theorem exclusive_put_new (h : Exclusive s) (hrecord : s.deletingRecords.lookup i = none)
    (htrash : s.trash.lookup i = none) (hfree : ∀ j, ¬ Holds s j c.port)
    (hport : PortProject c.port c.projectId) : Exclusive (s.put i c) where
  config j d hd := by
    rw [lookup_put] at hd
    split at hd
    · cases hd
      exact hport
    · exact h.config j d hd
  record := h.record
  same j d r hd hr := by
    rw [lookup_put] at hd
    split at hd
    next hj =>
      subst hj
      cases hrecord.symm.trans hr
    · exact h.same j d r hd hr
  trash j d hd := by
    obtain ⟨hnone, hr⟩ := h.trash j d hd
    have hj : j ≠ i := by
      rintro rfl
      cases htrash.symm.trans hd
    exact ⟨(lookup_put_of_ne hj).trans hnone, hr⟩
  unique := by
    have hholds : ∀ j p, Holds (s.put i c) j p → (j = i ∧ p = c.port) ∨ Holds s j p := by
      intro j p hj
      by_cases hji : j = i
      · subst hji
        rcases hj with ⟨d, hd, rfl⟩ | ⟨r, hr, -⟩
        · rw [lookup_put, if_pos rfl] at hd
          exact .inl ⟨rfl, congrArg Config.port (Option.some.inj hd).symm⟩
        · cases hrecord.symm.trans hr
      · exact .inr ((holds_put_of_ne hji).mp hj)
    intro j k p hj hk
    rcases hholds j p hj with ⟨rfl, rfl⟩ | hj'
    · rcases hholds k _ hk with ⟨rfl, -⟩ | hk'
      · rfl
      · exact absurd hk' (hfree k)
    · rcases hholds k p hk with ⟨rfl, rfl⟩ | hk'
      · exact absurd hj' (hfree j)
      · exact h.unique j k p hj' hk'

/-- What the others see of a record that changes. -/
theorem view_put_of_ne (hj : j ≠ i) (hrest : s.lock = some j → (s.put i c').rest j = s.rest j) :
    view j (s.put i c') = view j s := by
  simp only [view, lookup_put_of_ne hj]
  by_cases hlock : s.lock = some j
  · have hlock' : (s.put i c').lock = some j := hlock
    simp only [if_pos hlock, if_pos hlock', hrest hlock]
    rfl
  · have hlock' : (s.put i c').lock ≠ some j := hlock
    simp only [if_neg hlock, if_neg hlock']
    rfl

/-- A thread that holds the lock hides its record from the others. -/
theorem view_put_of_lock (hlock : s.lock = some i) (hj : j ≠ i) :
    view j (s.put i c') = view j s := by
  refine view_put_of_ne hj ?_
  intro hlock'
  exact absurd (Option.some.inj (hlock'.symm.trans hlock)) hj

theorem rest_put_self (s : Host) (i : InstanceId) (c : Config) : (s.put i c).rest i = s.rest i := by
  have herase : ∀ f : InstanceId → Config → Nat,
      Table.sumOver f ((s.put i c).configs.erase i) = Table.sumOver f (s.configs.erase i) := by
    intro f
    have h := Table.sumOver_of_lookup (f := f) (AList.lookup_insert (b := c) (a := i) s.configs)
    rw [Table.sumOver_insert] at h
    exact (Nat.add_left_cancel h).symm
  simp only [Host.rest, herase, Others.mk.injEq, true_and]
  funext port
  exact propext (exists_congr fun j => and_congr_right fun hj => holds_put_of_ne hj)

theorem view_put_self (hc : s.configs.lookup i = some c)
    (hport : c'.port = c.port ∧ c'.projectId = c.projectId) :
    view i (s.put i c') = { view i s with config := some c' } := by
  simp only [view, lookup_put, if_true, hc, Option.bind_some, hport.2, rest_put_self]
  rfl

theorem lock_of_others (h : (view i s).others.isSome) : s.lock = some i := by
  by_contra hnot
  simp [view, hnot] at h

/-- Save a record under the lock. -/
theorem spec_save (hc : v.config = some c) (hlocked : v.others.isSome)
    (hedit : Edit platform q v c c') :
    Spec platform i q (· = v) (save i c') (fun _ v' => v' = { v with config := some c' }) E := by
  refine triple_commit ?_ ?_
  · intro s u hs hv _ hexec
    cases hexec
    subst hv
    refine ⟨⟨exclusive_put hs hc hedit.port, ?_, .edit hc hedit⟩, view_put_self hc hedit.port⟩
    intro j hj
    exact view_put_of_lock (lock_of_others hlocked) hj
  · intro s e _ _ hexec
    exact absurd hexec (by simp [setting, Write.exec])

/-- Save a record that reserves what it reserved, with or without the lock. -/
theorem spec_save_mark (hc : v.config = some c)
    (hmemory : c'.memoryReservation = c.memoryReservation)
    (hconnections : c'.connectionReservation = c.connectionReservation)
    (hedit : Edit platform q v c c') :
    Spec platform i q (· = v) (save i c') (fun _ v' => v' = { v with config := some c' }) E := by
  refine triple_commit ?_ ?_
  · intro s u hs hv _ hexec
    cases hexec
    subst hv
    refine ⟨⟨exclusive_put hs hc hedit.port, ?_, .edit hc hedit⟩, view_put_self hc hedit.port⟩
    intro j hj
    refine view_put_of_ne hj ?_
    intro _
    have hsum := fun f (hf : f i c' = f i c) =>
      Table.sumOver_erase_insert (f := f) hc (Ne.symm hj) hf
    simp only [Host.rest, holds_put hc hedit.port.1]
    simp only [Host.put, hsum (fun _ c => c.memoryReservation) hmemory,
      hsum (fun _ c => c.connectionReservation) hconnections]
  · intro s e _ _ hexec
    exact absurd hexec (by simp [setting, Write.exec])

/-- The first record of an instance, on a port that nobody holds. -/
theorem spec_create {owner : String} {engine : Engine} {port : Nat} {target : Quotas}
    {others : Others} (hq : q.creates = true) (hc : v.config = none) (hrecord : v.record = none)
    (htrash : v.trash = none) (hothers : v.others = some others) (hport : ¬ others.ports port)
    (hmin : PORT_MIN ≤ port) (hmax : port ≤ PORT_MAX) (hfits : Fits platform others target 0) :
    Spec platform i q (· = v) (save i (.create owner engine port target))
      (fun _ v' => ∃ limit,
        v' = { v with config := some (.create owner engine port target), limit := limit }) E := by
  refine triple_commit ?_ ?_
  · intro s u hs hv _ hexec
    cases hexec
    subst hv
    change s.configs.lookup i = none at hc
    change s.deletingRecords.lookup i = none at hrecord
    have hlock : s.lock = some i := lock_of_others (by
      change (view i s).others = some others at hothers
      rw [hothers]
      rfl)
    obtain rfl : s.rest i = others := by simpa [agreement, view, hlock] using hothers
    have hfree : ∀ j, ¬ Holds s j port := by
      intro j hj
      by_cases hji : j = i
      · subst hji
        rcases hj with ⟨c, h, -⟩ | ⟨r, h, -⟩
        · cases hc.symm.trans h
        · cases hrecord.symm.trans h
      · exact hport ⟨j, hji, hj⟩
    refine ⟨⟨?_, fun j hj => view_put_of_lock hlock hj,
      .create hq hc hrecord htrash hfree hmin hmax hfits⟩, ?_⟩
    · exact exclusive_put_new hs hrecord htrash hfree ⟨hmin, hmax, rfl⟩
    · refine ⟨(view i (s.put i (.create owner engine port target))).limit, ?_⟩
      simp only [agreement, view, lookup_put, if_true, rest_put_self]
      rfl
  · intro s e _ _ hexec
    exact absurd hexec (by simp [setting, Write.exec])

/-! ## Assignments -/

/-- A command of a thread whose effect keeps the agreement. -/
theorem spec_command_of_keeps {c : Command} {f : View → View}
    (hkeeps : ∀ s, Exclusive s → view i s = v →
      (agreement platform).Keeps i q s (.inr c) (c.effect s) ∧ view i (c.effect s) = f v)
    (herror : ∀ v', v' = v ∨ v' = f v → E v') :
    Spec platform i q (· = v) (command c) (fun _ v' => v' = f v) E := by
  refine triple_bind (Q := fun _ v' => v' = f v) (triple_query ?_) fun _ =>
    triple_pure fun _ h => h
  intro s outcome hs hv
  obtain ⟨hk, hview⟩ := hkeeps s hs hv
  cases outcome with
  | succeeded output => exact ⟨hk, hview⟩
  | failed effect =>
    cases effect with
    | true => exact ⟨hk, herror _ (.inr hview)⟩
    | false => exact ⟨keeps_refl hs, herror _ (.inl hv)⟩

/-- Assign the limits of the project of the instance. -/
theorem spec_limit (hc : v.config = some c) (happlies : q.applies c.quotas)
    (herror : ∀ limit, E { v with limit := limit }) :
    Spec platform i q (· = v) (command (.limitProject c.projectId c.projectLimit))
      (fun _ v' => v' = { v with limit := some c.projectLimit }) E := by
  refine spec_command_of_keeps (f := fun v => { v with limit := some c.projectLimit }) ?_ ?_
  · intro s hs hv
    subst hv
    change s.configs.lookup i = some c at hc
    refine ⟨⟨exclusive_congr (s := s) rfl rfl rfl hs, ?_, .limit hc happlies⟩, ?_⟩
    · intro j hj
      have hlimit : ((s.configs.lookup j).bind fun d =>
          assign s.limits c.projectId (some c.projectLimit) d.projectId) =
          (s.configs.lookup j).bind fun d => s.limits d.projectId := by
        cases hd : s.configs.lookup j with
        | none => rfl
        | some d => exact assign_of_ne _ _ (hs.project_ne hd hc hj)
      change view j { s with limits := assign s.limits c.projectId (some c.projectLimit) } =
        view j s
      simp only [view, hlimit]
      rfl
    · simp only [Command.effect, view, hc, Option.bind_some, assign_self]
      rfl
  · rintro v' (rfl | rfl)
    · exact herror v'.limit
    · exact herror _

/-- Assign properties of the unit of the instance. -/
theorem spec_properties {new : UnitProperties} (hc : v.config = some c) (hnew : Assigns q c new)
    (herror : ∀ properties, E { v with properties := properties }) :
    Spec platform i q (· = v) (command (.setProperty i new))
      (fun _ v' => v' = { v with properties := some (new.over v.properties) }) E := by
  refine spec_command_of_keeps
    (f := fun v => { v with properties := some (new.over v.properties) }) ?_ ?_
  · intro s hs hv
    subst hv
    refine ⟨⟨exclusive_congr (s := s) rfl rfl rfl hs, ?_, .properties hc hnew⟩, ?_⟩
    · intro j hj
      change view j { s with properties := _ } = view j s
      simp only [view, assign_of_ne _ _ hj]
      rfl
    · simp only [Command.effect, view, assign_self]
      rfl
  · rintro v' (rfl | rfl)
    · exact herror v'.properties
    · exact herror _

/-! ## Deletion -/

/-- Record the deletion of an instance, under the lock. -/
theorem spec_record (hc : v.config = some c) (hlocked : v.others.isSome) :
    Spec platform i q (· = v) (Process.commit (.deletingRecord i ⟨c.port, c.projectId⟩))
      (fun _ v' => v' = { v with record := some ⟨c.port, c.projectId⟩ }) E := by
  refine triple_commit ?_ ?_
  · intro s u hs hv _ hexec
    cases hexec
    subst hv
    change s.configs.lookup i = some c at hc
    have hlock := lock_of_others hlocked
    have hlookup := fun j => Table.lookup_insert_ite s.deletingRecords i j ⟨c.port, c.projectId⟩
    -- The instance holds its port already, by its record.
    have hholds : ∀ j p,
        Holds { s with deletingRecords := s.deletingRecords.insert i ⟨c.port, c.projectId⟩ } j p →
          Holds s j p := by
      rintro j p (h | ⟨r, hr, hp⟩)
      · exact .inl h
      · simp only [hlookup] at hr
        split at hr
        next hj =>
          cases hr
          subst hj
          exact .inl ⟨c, hc, hp⟩
        · exact .inr ⟨r, hr, hp⟩
    have hne : ∀ j, j ≠ i → ∀ p,
        (Holds { s with deletingRecords := s.deletingRecords.insert i ⟨c.port, c.projectId⟩ } j p ↔
          Holds s j p) := by
      intro j hj p
      simp only [Holds, hlookup, if_neg hj]
    refine ⟨⟨?_, ?_, .record hc⟩, ?_⟩
    · refine ⟨hs.config, ?_, ?_, ?_, fun j k p hj hk => hs.unique j k p (hholds j p hj)
        (hholds k p hk)⟩
      · intro j r hr
        simp only [hlookup] at hr
        split at hr
        · cases hr
          exact hs.config i c hc
        · exact hs.record j r hr
      · intro j d r hd hr
        simp only [hlookup] at hr
        split at hr
        next hj =>
          cases hr
          subst hj
          cases hc.symm.trans hd
          rfl
        · exact hs.same j d r hd hr
      · intro j d hd
        obtain ⟨hnone, hr⟩ := hs.trash j d hd
        have hj : j ≠ i := by
          rintro rfl
          cases hnone.symm.trans hc
        exact ⟨hnone, by simp only [hlookup, if_neg hj, hr]⟩
    · intro j hj
      have hlock' : s.lock ≠ some j := fun h => hj (Option.some.inj (h.symm.trans hlock))
      simp only [agreement, view, hlookup, if_neg hj, if_neg hlock']
    · have hrest :
          Host.rest { s with deletingRecords := s.deletingRecords.insert i ⟨c.port, c.projectId⟩ } i =
            s.rest i := by
        simp only [Host.rest, Others.mk.injEq, true_and]
        funext p
        exact propext (exists_congr fun j => and_congr_right fun hj => hne j hj p)
      simp only [agreement, view, hlookup, if_true, hrest]
  · intro s e _ _ hexec
    exact absurd hexec (by simp [setting, Write.exec])

/-- Rename the directory of an instance whose deletion is recorded, under the lock. -/
theorem spec_rename (hq : q.removes) (hc : v.config = some c)
    (hrecord : v.record = some ⟨c.port, c.projectId⟩) (hlocked : v.others.isSome) (herror : E v) :
    Spec platform i q (· = v) (Process.commit (.rename i))
      (fun _ v' => v' = { v with config := none, trash := some c, limit := none }) E := by
  refine triple_commit ?_ ?_
  · intro s u hs hv _ hexec
    subst hv
    change s.configs.lookup i = some c at hc
    change s.deletingRecords.lookup i = some ⟨c.port, c.projectId⟩ at hrecord
    have hlock := lock_of_others hlocked
    have hexec' := hexec
    simp only [setting, Write.exec, hc] at hexec
    cases htrash : s.trash.lookup i with
    | some d =>
      rw [htrash] at hexec
      cases hexec
    | none =>
      rw [htrash] at hexec
      cases hexec
      have hlookup : ∀ j, j ≠ i → (s.configs.erase i).lookup j = s.configs.lookup j :=
        fun j hj => AList.lookup_erase_ne hj
      have htrash' := fun j => Table.lookup_insert_ite s.trash i j c
      have hnone : (s.configs.erase i).lookup i = none := AList.lookup_erase i s.configs
      refine ⟨⟨?_, ?_, .rename hq hc hrecord hexec'⟩, ?_⟩
      · refine ⟨?_, hs.record, ?_, ?_, ?_⟩
        · intro j d hd
          by_cases hj : j = i
          · subst hj
            cases hnone.symm.trans hd
          · exact hs.config j d ((hlookup j hj).symm.trans hd)
        · intro j d r hd hr
          by_cases hj : j = i
          · subst hj
            cases hnone.symm.trans hd
          · exact hs.same j d r ((hlookup j hj).symm.trans hd) hr
        · intro j d hd
          simp only [htrash'] at hd
          split at hd
          next hj =>
            cases hd
            subst hj
            exact ⟨hnone, hrecord⟩
          next hj =>
            obtain ⟨h₁, h₂⟩ := hs.trash j d hd
            exact ⟨(hlookup j hj).trans h₁, h₂⟩
        · have hholds : ∀ j p, Holds { s with configs := s.configs.erase i } j p → Holds s j p := by
            rintro j p (⟨d, hd, hp⟩ | h)
            · by_cases hj : j = i
              · subst hj
                cases hnone.symm.trans hd
              · exact .inl ⟨d, (hlookup j hj).symm.trans hd, hp⟩
            · exact .inr h
          exact fun j k p hj hk => hs.unique j k p (hholds j p hj) (hholds k p hk)
      · intro j hj
        have hlock' : s.lock ≠ some j := fun h => hj (Option.some.inj (h.symm.trans hlock))
        simp only [agreement, view, hlookup j hj, htrash', if_neg hj, if_neg hlock']
      · have hrest : Host.rest
            { s with
              configs := s.configs.erase i
              trash := s.trash.insert i c
              secrets := assign s.secrets i false
              populated := assign s.populated i false } i = s.rest i := by
          have herase : ∀ f : InstanceId → Config → Nat,
              Table.sumOver f ((s.configs.erase i).erase i) =
                Table.sumOver f (s.configs.erase i) :=
            fun f => Table.sumOver_erase_of_lookup_eq_none hnone
          simp only [Host.rest, herase, Others.mk.injEq, true_and]
          funext p
          refine propext (exists_congr fun j => and_congr_right fun hj => ?_)
          simp only [Holds, hlookup j hj]
        simp only [agreement, view, hnone, htrash', if_true, hrest, Option.bind_none]
  · intro s e _ hv _
    subst hv
    exact herror

/-- The deleted directory goes away, or stays; the lock is not needed. -/
theorem spec_removeTrash (herror : ∀ trash, E { v with trash := trash }) :
    Spec platform i q (· = v) (command (.removeTrash i))
      (fun _ v' => v' = { v with trash := none }) E := by
  refine spec_command_of_keeps (f := fun v => { v with trash := none }) ?_ ?_
  · intro s hs hv
    subst hv
    refine ⟨⟨⟨hs.config, hs.record, hs.same, ?_, hs.unique⟩, ?_, .trash⟩, ?_⟩
    · intro j d hd
      by_cases hj : j = i
      · subst hj
        cases (AList.lookup_erase j s.trash).symm.trans hd
      · exact hs.trash j d ((AList.lookup_erase_ne hj).symm.trans hd)
    · intro j hj
      simp only [agreement, Command.effect, view, AList.lookup_erase_ne hj]
      rfl
    · simp only [Command.effect, view, AList.lookup_erase]
      rfl
  · rintro v' (rfl | rfl)
    · exact herror v'.trash
    · exact herror none

/-- The record of a deletion goes away, under the lock, when nothing of the instance is left. -/
theorem spec_unlink (hc : v.config = none) (htrash : v.trash = none) (hlocked : v.others.isSome) :
    Spec platform i q (· = v) (Process.commit (.unlink i))
      (fun _ v' => v' = { v with record := none }) E := by
  refine triple_commit ?_ ?_
  · intro s u hs hv _ hexec
    cases hexec
    subst hv
    change s.configs.lookup i = none at hc
    change s.trash.lookup i = none at htrash
    have hlock := lock_of_others hlocked
    have hlookup : ∀ j, j ≠ i → (s.deletingRecords.erase i).lookup j =
        s.deletingRecords.lookup j := fun j hj => AList.lookup_erase_ne hj
    have hnone : (s.deletingRecords.erase i).lookup i = none :=
      AList.lookup_erase i s.deletingRecords
    have hold : ∀ j r, (s.deletingRecords.erase i).lookup j = some r →
        s.deletingRecords.lookup j = some r := by
      intro j r hr
      by_cases hj : j = i
      · subst hj
        cases hnone.symm.trans hr
      · exact (hlookup j hj).symm.trans hr
    refine ⟨⟨?_, ?_, .unlink hc htrash⟩, ?_⟩
    · refine ⟨hs.config, fun j r hr => hs.record j r (hold j r hr),
        fun j d r hd hr => hs.same j d r hd (hold j r hr), ?_, ?_⟩
      · intro j d hd
        obtain ⟨h₁, h₂⟩ := hs.trash j d hd
        have hj : j ≠ i := by
          rintro rfl
          cases htrash.symm.trans hd
        exact ⟨h₁, (hlookup j hj).trans h₂⟩
      · have hholds : ∀ j p, Holds { s with deletingRecords := s.deletingRecords.erase i } j p →
            Holds s j p := by
          rintro j p (h | ⟨r, hr, hp⟩)
          · exact .inl h
          · exact .inr ⟨r, hold j r hr, hp⟩
        exact fun j k p hj hk => hs.unique j k p (hholds j p hj) (hholds k p hk)
    · intro j hj
      have hlock' : s.lock ≠ some j := fun h => hj (Option.some.inj (h.symm.trans hlock))
      simp only [agreement, view, hlookup j hj, if_neg hlock']
    · have hrest : Host.rest { s with deletingRecords := s.deletingRecords.erase i } i =
          s.rest i := by
        simp only [Host.rest, Others.mk.injEq, true_and]
        funext p
        refine propext (exists_congr fun j => and_congr_right fun hj => ?_)
        simp only [Holds, hlookup j hj]
      simp only [agreement, view, hnone, hrest]
  · intro s e _ _ hexec
    exact absurd hexec (by simp [setting, Write.exec])

end StorageInstances
end OpenstackPlatform
