import OpenstackPlatform.StorageInstances.Requests

/-!
# Ports and projects

In every run of the manager the ports and the quota projects of instances are exclusive, from the
first record of an instance until the last trace of its deletion, and a port is given out only when
nothing is left of whoever had it before.

A deletion passes through four durable states: a record of the instance, that and a record of the
deletion, the renamed directory and the record of the deletion, and that record alone.  `Exclusive`
keeps the port reserved in all of them, and `Change` says which step leads from one to the next;
only the last step, the removal of the record, gives the port back.

* `sound_of_service`: what is known of every reachable state of the manager.
* `ports_exclusive_of_run`: the ports and projects of a run.
-/

namespace OpenstackPlatform
namespace StorageInstances

open Library

/-- A state of the manager: the host and the running requests. -/
abbrev ManagerState := Machine InstanceId Request Host Write Command Nat InstanceError Unit

/-- A step of the manager. -/
abbrev ManagerLabel := Label InstanceId Request Outcome

/-- The runs of the manager from a host it never ran on, whose steps meet a condition. -/
abbrev ManagerRun (platform : Platform) (ok : ManagerState → ManagerLabel → Prop) :
    List ManagerLabel → ManagerState → Prop :=
  Run (restrict (Machine.step (service platform)) ok) (Machine.idle Host.empty)

variable {ok : ManagerState → ManagerLabel → Prop}

/-- A list of steps that can be played is a run of the manager, and it ends in the state that was
played. -/
theorem exists_run_of_play (platform : Platform) (check : ManagerState → ManagerLabel → Bool)
    (ls : List ManagerLabel) {α : Type} (f : ManagerState → α) (a : α)
    (hcheck : ∀ m l, check m l = true → ok m l)
    (h : ((Machine.idle Host.empty).play (service platform) check ls).map f = some a) :
    ∃ m, ManagerRun platform ok ls m ∧ f m = a := by
  obtain ⟨m, hm, hf⟩ := Option.map_eq_some_iff.mp h
  refine ⟨m, (Machine.run_of_play hm).mono ?_, hf⟩
  intro s l t hstep
  exact ⟨hstep.1, hcheck s l hstep.2⟩

theorem exclusive_empty : Exclusive Host.empty where
  config _ _ h := absurd h (by simp [Host.empty])
  record _ _ h := absurd h (by simp [Host.empty])
  same _ _ _ h := absurd h (by simp [Host.empty])
  trash _ _ h := absurd h (by simp [Host.empty])
  unique i j port h := by
    rcases h with ⟨c, h, -⟩ | ⟨r, h, -⟩
    · exact absurd h (by simp [Host.empty])
    · exact absurd h (by simp [Host.empty])

variable {platform : Platform} {s : Host}

/-- A request may promise anything that its program ensures from the view it starts with. -/
theorem ensures_of_spec {i : InstanceId} {q : Request} {Q : View → View → Prop} (hs : Exclusive s)
    (h : ∀ v, Spec platform i q (· = v) (dispatch platform i q) (fun _ w => Q v w) Trivially) :
    (dispatch platform i q).Ensures setting ((agreement platform).contract i q) s
      fun r s' => r = .ok () → Q (view i s) (view i s') := by
  refine (h (view i s) s hs rfl).mono ?_
  intro r t ht hr
  subst hr
  exact ht.2

/-- **Every reachable state of the manager is sound**: ports are exclusive, and each running
request is at a point of its program from which it keeps the agreement and its promise. -/
theorem sound_of_service {post : InstanceId → Request → Except InstanceError Unit → Host → Prop}
    {ls : List ManagerLabel} {m : ManagerState} (h : ManagerRun platform ok ls m)
    (hstart : ∀ m i q, Exclusive m.state → ok m (.start i q) →
      (dispatch platform i q).Ensures setting ((agreement platform).contract i q) m.state
        (post i q)) :
    Machine.Sound (service platform) (agreement platform) post m := by
  refine Machine.sound_of_run h (Machine.sound_idle exclusive_empty) ?_ ?_
  · intro m i q hm hok
    exact hstart m i q hm.inv hok
  · intro s hs
    exact exclusive_congr (s := s) rfl rfl rfl hs

/-- What a request that promises nothing ensures. -/
theorem ensures_dispatch (platform : Platform) (i : InstanceId) (q : Request) (hs : Exclusive s) :
    (dispatch platform i q).Ensures setting ((agreement platform).contract i q) s
      fun _ _ => True :=
  (spec_dispatch platform i q (view i s) s hs rfl).mono fun _ _ _ => trivial

/-- The reachable states, when nothing is promised. -/
theorem sound_of_run' {ls : List ManagerLabel} {m : ManagerState}
    (h : ManagerRun platform ok ls m) :
    Machine.Sound (service platform) (agreement platform) (fun _ _ _ _ => True) m :=
  sound_of_service h fun _ i q hm _ => ensures_dispatch platform i q hm

/-- One step of a sound manager changes the host as one of its requests may, or not at all. -/
theorem change_of_step {post : InstanceId → Request → Except InstanceError Unit → Host → Prop}
    {m m' : ManagerState} {l : ManagerLabel}
    (hm : Machine.Sound (service platform) (agreement platform) post m)
    (hstep : Machine.step (service platform) m l m') :
    m'.state = m.state ∨ m'.state = m.state.stopped ∨
      ∃ i q t, m.event (service platform) l = some (i, q, t) ∧
        Change platform i q m.state t m'.state := by
  cases he : m.event (service platform) l with
  | none =>
    rcases Machine.state_of_next hstep he with h | ⟨-, h⟩
    · exact .inl h
    · exact .inr (.inl h)
  | some e =>
    obtain ⟨i, q, t⟩ := e
    exact .inr (.inr ⟨i, q, t, rfl, (hm.keeps hstep he).change⟩)

/-! ## Exclusivity -/

/-- An instance has a port and a project: by its record, by the record of its deletion, or by a
deleted directory that still exists. -/
def Occupies (s : Host) (i : InstanceId) (port project : Nat) : Prop :=
  (∃ c, s.configs.lookup i = some c ∧ c.port = port ∧ c.projectId = project) ∨
    (∃ r, s.deletingRecords.lookup i = some r ∧ r.port = port ∧ r.projectId = project) ∨
      ∃ c, s.trash.lookup i = some c ∧ c.port = port ∧ c.projectId = project

/-- No two instances share a port or a project, and all ports are in the range. -/
structure PortsExclusive (s : Host) : Prop where
  disjoint : ∀ i j port port' project project', i ≠ j → Occupies s i port project →
    Occupies s j port' project' → port ≠ port' ∧ project ≠ project'
  range : ∀ i port project, Occupies s i port project → 30000 ≤ port ∧ port ≤ 30999

/-- An instance comes to a port only when nobody has it, not even an unfinished deletion. -/
def PortsReused (s s' : Host) : Prop :=
  ∀ i port project, Occupies s' i port project →
    Occupies s i port project ∨ ∀ j project', ¬ Occupies s j port project'

/-- Whoever occupies a port holds it. -/
theorem holds_of_occupies (h : Exclusive s) {i : InstanceId} {port project : Nat}
    (ho : Occupies s i port project) : Holds s i port ∧ PortProject port project := by
  rcases ho with ⟨c, hc, rfl, rfl⟩ | ⟨r, hr, rfl, rfl⟩ | ⟨c, hc, rfl, rfl⟩
  · exact ⟨.inl ⟨c, hc, rfl⟩, h.config i c hc⟩
  · exact ⟨.inr ⟨r, hr, rfl⟩, h.record i r hr⟩
  · have hr := (h.trash i c hc).2
    exact ⟨.inr ⟨_, hr, rfl⟩, h.record i _ hr⟩

theorem portsExclusive_of_exclusive (h : Exclusive s) : PortsExclusive s where
  disjoint i j port port' project project' hij hi hj := by
    obtain ⟨hholds, hmin, -, hproject⟩ := holds_of_occupies h hi
    obtain ⟨hholds', hmin', -, hproject'⟩ := holds_of_occupies h hj
    have hport : port ≠ port' := by
      rintro rfl
      exact hij (h.unique i j port hholds hholds')
    have hbase : PORT_MIN = 30000 := rfl
    refine ⟨hport, ?_⟩
    omega
  range i port project ho := by
    obtain ⟨-, hmin, hmax, -⟩ := holds_of_occupies h ho
    exact ⟨hmin, hmax⟩

theorem portsReused_of_eq {s' : Host} (hconfigs : s'.configs = s.configs)
    (hrecords : s'.deletingRecords = s.deletingRecords) (htrash : s'.trash = s.trash) :
    PortsReused s s' := by
  intro i port project ho
  refine .inl ?_
  simpa only [Occupies, hconfigs, hrecords, htrash] using ho

/-- A step of a request gives an instance a port only when nobody has it. -/
theorem Change.portsReused {i : InstanceId} {q : Request} {s' : Host} {t : Write ⊕ Command}
    (hs : Exclusive s) (h : Change platform i q s t s') : PortsReused s s' := by
  intro j port project ho
  cases h with
  | silent _ hconfigs hrecords htrash =>
    exact portsReused_of_eq hconfigs hrecords htrash j port project ho
  | create _ hc hr ht hfree =>
    rcases ho with ⟨c, hc', hport, hproject⟩ | ho
    · rw [lookup_put] at hc'
      split at hc'
      next hj =>
        cases hc'
        refine .inr fun k project' hk => hfree k ?_
        have := (holds_of_occupies hs hk).1
        rwa [← hport] at this
      · exact .inl (.inl ⟨c, hc', hport, hproject⟩)
    · exact .inl (.inr ho)
  | @edit c c' hc hedit =>
    rcases ho with ⟨d, hd, hport, hproject⟩ | ho
    · rw [lookup_put] at hd
      split at hd
      next hj =>
        cases hd
        subst hj
        exact .inl (.inl ⟨c, hc, hedit.port.1 ▸ hport, hedit.port.2 ▸ hproject⟩)
      · exact .inl (.inl ⟨d, hd, hport, hproject⟩)
    · exact .inl (.inr ho)
  | limit => exact .inl ho
  | properties => exact .inl ho
  | @record c hc =>
    rcases ho with ho | ⟨r, hr, hport, hproject⟩ | ho
    · exact .inl (.inl ho)
    · rw [Table.lookup_insert_ite] at hr
      split at hr
      next hj =>
        cases hr
        subst hj
        exact .inl (.inl ⟨c, hc, hport, hproject⟩)
      · exact .inl (.inr (.inl ⟨r, hr, hport, hproject⟩))
    · exact .inl (.inr (.inr ho))
  | @rename c s' _ hc hr hexec =>
    simp only [Write.exec, hc] at hexec
    cases ht : s.trash.lookup i with
    | some d =>
      rw [ht] at hexec
      cases hexec
    | none =>
      rw [ht] at hexec
      cases hexec
      rcases ho with ⟨d, hd, hport, hproject⟩ | ho | ⟨d, hd, hport, hproject⟩
      · by_cases hj : j = i
        · subst hj
          cases (AList.lookup_erase j s.configs).symm.trans hd
        · exact .inl (.inl ⟨d, (AList.lookup_erase_ne hj).symm.trans hd, hport, hproject⟩)
      · exact .inl (.inr (.inl ho))
      · rw [Table.lookup_insert_ite] at hd
        split at hd
        next hj =>
          cases hd
          subst hj
          exact .inl (.inl ⟨c, hc, hport, hproject⟩)
        · exact .inl (.inr (.inr ⟨d, hd, hport, hproject⟩))
  | trash =>
    rcases ho with ho | ho | ⟨d, hd, hport, hproject⟩
    · exact .inl (.inl ho)
    · exact .inl (.inr (.inl ho))
    · by_cases hj : j = i
      · subst hj
        cases (AList.lookup_erase j s.trash).symm.trans hd
      · exact .inl (.inr (.inr ⟨d, (AList.lookup_erase_ne hj).symm.trans hd, hport, hproject⟩))
  | unlink =>
    rcases ho with ho | ⟨r, hr, hport, hproject⟩ | ho
    · exact .inl (.inl ho)
    · by_cases hj : j = i
      · subst hj
        cases (AList.lookup_erase j s.deletingRecords).symm.trans hr
      · exact .inl (.inr (.inl ⟨r, (AList.lookup_erase_ne hj).symm.trans hr, hport, hproject⟩))
    · exact .inl (.inr (.inr ho))

/-- **Ports and quota projects are exclusive along every run of the manager.**  Whatever requests
run side by side, whichever commands fail and wherever the manager stops, no two instances with a
record, an unfinished deletion or a deleted directory that still exists share a port or a project,
all ports are in the range, and the next step gives a port only to an instance when nobody has it,
so that the data directory of whoever had it before is gone. -/
theorem ports_exclusive_of_run {platform : Platform} {ls : List ManagerLabel} {m : ManagerState}
    (h : ManagerRun platform (fun _ _ => True) ls m) :
    PortsExclusive m.state ∧
      ∀ l m', Machine.step (service platform) m l m' → PortsReused m.state m'.state := by
  have hm := sound_of_run' h
  refine ⟨portsExclusive_of_exclusive hm.inv, ?_⟩
  intro l m' hstep
  rcases change_of_step hm hstep with heq | heq | ⟨i, q, t, -, hchange⟩
  · exact portsReused_of_eq (by rw [heq]) (by rw [heq]) (by rw [heq])
  · exact portsReused_of_eq (by rw [heq]; rfl) (by rw [heq]; rfl) (by rw [heq]; rfl)
  · exact hchange.portsReused hm.inv

/-- A host with a terabyte for data. -/
def exampleHost : Platform := ⟨"p", "10.0.0.1", "10.0.0.2", 36 * GIB, 1024 * GIB⟩

/-- The limits of a small instance. -/
def smallQuotas : Quotas := ⟨GIB, 10, 512 * MIB, 500⟩

/-- A request of one instance whose commands all succeed, for as many steps as it takes. -/
def served (i : InstanceId) (q : Request) (steps : Nat) : List ManagerLabel :=
  .start i q :: (List.replicate steps (.advance i (.succeeded 0)) ++ [.finish i])

/-- An instance is created and removed up to its renamed directory; beside the removal another one
is created up to its first record, and the manager stops. -/
def stoppedCreation : List ManagerLabel :=
  served "a" (.create "app" .postgres smallQuotas [] ⟨0, 0⟩) 53 ++
    .start "a" (.remove true) :: List.replicate 11 (.advance "a" (.succeeded 0)) ++
    .start "b" (.create "app" .postgres smallQuotas [] ⟨0, 0⟩) ::
      List.replicate 24 (.advance "b" (.succeeded 0)) ++ [.stop]

/-- The port of an unfinished removal is kept, and the instance that was created beside it has the
next one. -/
theorem ports_exclusive_of_stopped_creation :
    ∃ m, (m.state.configs.lookup "a").isNone = true ∧
      (m.state.trash.lookup "a").map Config.port = some 30000 ∧
      (m.state.configs.lookup "b").map Config.port = some 30001 ∧ PortsExclusive m.state ∧
      ∀ l m', Machine.step (service exampleHost) m l m' → PortsReused m.state m'.state := by
  obtain ⟨m, hrun, hports⟩ := exists_run_of_play exampleHost (fun _ _ => true) stoppedCreation
    (fun m => ((m.state.configs.lookup "a").isNone, (m.state.trash.lookup "a").map Config.port,
      (m.state.configs.lookup "b").map Config.port)) (true, some 30000, some 30001)
    (fun _ _ _ => trivial) (by decide +kernel)
  simp only [Prod.mk.injEq] at hports
  exact ⟨m, hports.1, hports.2.1, hports.2.2, ports_exclusive_of_run hrun⟩

end StorageInstances
end OpenstackPlatform
