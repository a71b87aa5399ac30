import OpenstackPlatform.StorageInstances.Steps

/-!
# The requests keep the agreement

Each program of the manager, followed from the view it starts with.  `spec_apply` says what an
instance has been assigned when `apply` returns, `spec_limits` what a `limits` request that returns
leaves, and `spec_dispatch` that every request keeps the agreement.
-/

namespace OpenstackPlatform
namespace StorageInstances

open Library Protocol

variable {platform : Platform} {i : InstanceId} {q : Request}

/-- The thread holds the shared lock. -/
abbrev Locked (v : View) : Prop := v.others.isSome = true

/-! ## Building blocks -/

section Blocks

variable {α β : Type} {A E : View → Prop} {R : β → View → Prop}

/-- A step after which what was known is still known. -/
theorem spec_seq {p : Action α} {f : α → Action β} (hp : Spec platform i q A p (fun _ => A) E)
    (hf : ∀ a, Spec platform i q A (f a) R E) : Spec platform i q A (p >>= f) R E :=
  triple_bind hp hf

theorem spec_forEach {l : List α} {f : α → Action Unit}
    (h : ∀ a ∈ l, Spec platform i q A (f a) (fun _ => A) E) :
    Spec platform i q A (forEach l f) (fun _ => A) E := by
  induction l with
  | nil => exact triple_pure fun _ hA => hA
  | cons a l ih =>
    refine spec_seq (h a List.mem_cons_self) fun _ => ih ?_
    intro b hb
    exact h b (List.mem_cons_of_mem a hb)

theorem spec_require {condition : Bool} {error : InstanceError} (hE : ∀ v, A v → E v) :
    Spec platform i q A (require condition error) (fun _ => A) E := by
  unfold require
  cases condition with
  | true => exact triple_pure fun _ hA => hA
  | false => exact triple_throw hE

theorem spec_require_bind {condition : Bool} {error : InstanceError} {p : Action β}
    (hE : ∀ v, A v → E v) (h : condition = true → Spec platform i q A p R E) :
    Spec platform i q A (require condition error >>= fun _ => p) R E := by
  cases hc : condition with
  | true => exact h hc
  | false => exact triple_throw hE

theorem spec_lift_bind {x : Except InstanceError α} {f : α → Action β} (hE : ∀ v, A v → E v)
    (h : ∀ a, x = .ok a → Spec platform i q A (f a) R E) :
    Spec platform i q A (Process.lift x >>= f) R E := by
  cases hx : x with
  | ok a => exact h a hx
  | error e => exact triple_throw hE

theorem spec_firewall (hE : ∀ v, A v → E v) :
    Spec platform i q A (firewall platform) (fun _ => A) E := by
  refine spec_seq (triple_inspect ?_) fun _ => spec_command rfl hE
  intro s _ hA
  cases firewallScript platform s.records with
  | ok script => exact hA
  | error e => exact hE _ hA

theorem spec_given {condition : Bool} {p : Action Unit}
    (h : condition = true → Spec platform i q A p (fun _ => A) E) :
    Spec platform i q A (given condition p) (fun _ => A) E := by
  unfold given
  cases hc : condition with
  | true => exact h hc
  | false => exact triple_pure fun _ hA => hA

theorem mem_projects {garage : Nat} {x : String × Nat × Nat} (hx : x ∈ projects garage) :
    x.2.1 < 10000 := by
  simp only [projects, List.mem_cons, List.not_mem_nil, or_false] at hx
  rcases hx with rfl | rfl | rfl | rfl | rfl
  all_goals simp

theorem spec_reserveDisk {values : Reservations} (hE : ∀ v, A v → E v) :
    Spec platform i q A (reserveDisk platform values) (fun _ => A) E := by
  unfold reserveDisk
  refine spec_seq (triple_get fun _ _ hA => hA) fun previous => ?_
  refine spec_seq (spec_require hE) fun _ => ?_
  refine spec_seq (spec_write rfl) fun _ => ?_
  refine spec_seq ?_ fun _ => spec_seq ?_ fun _ => ?_
  · refine spec_given fun _ => spec_forEach ?_
    intro x _
    exact spec_seq (spec_query rfl hE) fun _ => spec_require hE
  · refine spec_forEach ?_
    rintro ⟨name, project, size⟩ hx
    refine spec_seq ?_ fun _ => ?_
    · exact spec_given fun _ => spec_command rfl hE
    · refine spec_command ?_ hE
      exact decide_eq_true (mem_projects hx)
  · exact spec_given fun _ => spec_write rfl

end Blocks

variable {v : View}

/-- A section under the shared lock, followed from the view with the lock. -/
theorem spec_locked {α : Type} {p : Action α} {B : α → View → Prop} {F E : View → Prop}
    (hp : ∀ o, Spec platform i q (· = { v with others := some o }) p B F)
    (hB : ∀ a v, B a v → Locked v) (hF : ∀ v, F v → Locked v)
    (hE : ∀ v, F v → E { v with others := none }) :
    Spec platform i q (· = v) (locked i p)
      (fun a v' => ∃ w, B a w ∧ v' = { w with others := none }) E := by
  unfold locked
  refine triple_bind (spec_acquire (v := v)) fun _ => ?_
  refine triple_of_forall ?_
  rintro _ ⟨o, rfl⟩
  refine triple_andFinally (hp o) ?_ ?_
  · intro a
    refine triple_of_forall fun w hw => ?_
    exact (spec_release (hB a w hw)).conseq (fun _ h => h) (fun _ _ h => ⟨w, hw, h⟩) fun _ h => h
  · refine triple_of_forall fun w hw => ?_
    refine (spec_release (hF w hw)).conseq (fun _ h => h) ?_ fun _ h => h
    intro _ _ h
    rw [h]
    exact hE w hw

/-- The record of the instance is read. -/
theorem spec_read {E : View → Prop} (hE : E v) :
    Spec platform i q (· = v) (read i) (fun c v' => v' = v ∧ v.config = some c) E := by
  refine triple_inspect ?_
  intro s _ hv
  subst hv
  split
  next c hc => exact ⟨rfl, hc⟩
  next => exact hE

/-! ## Assignment -/

/-- The record that `apply` leaves. -/
def Config.applied (c : Config) : Config :=
  { c with
    projectInitialized := true
    readinessPending := c.readinessPending || c.desiredRunning }

/-- What an instance owns after `apply`: its limits are those of its record. -/
def View.applied (v : View) (c : Config) : View :=
  { v with
    config := some c.applied
    properties := some c.unitProperties
    limit := some c.projectLimit }

variable {c : Config}

theorem spec_initializeProject (hq : q.marks) (hc : v.config = some c) (hlocked : Locked v) :
    Spec platform i q (· = v) (initializeProject i c)
      (fun c' v' => c' = { c with projectInitialized := true } ∧
        v' = { v with config := some { c with projectInitialized := true } }) Locked := by
  have hforget : ∀ w, w = v → Locked w := fun w hw => hw ▸ hlocked
  unfold initializeProject
  split
  next h =>
    refine triple_pure ?_
    rintro _ rfl
    have hsame : { c with projectInitialized := true } = c := by rw [← h]
    rw [hsame, ← hc]
    exact ⟨rfl, rfl⟩
  next =>
    refine spec_seq (spec_command rfl hforget) fun _ => ?_
    refine triple_bind (spec_save hc hlocked
      (.flags c.desiredRunning true c.readinessPending c.adminInitialized hq)) fun _ => ?_
    exact triple_pure fun w hw => ⟨rfl, hw⟩

theorem spec_startUnit {restart : Bool} (hq : q.marks) (hc : v.config = some c)
    (hlocked : Locked v) :
    Spec platform i q (· = v) (startUnit i c restart)
      (fun c' v' => c' = { c with readinessPending := c.readinessPending || c.desiredRunning } ∧
        v' = { v with
          config := some { c with readinessPending := c.readinessPending || c.desiredRunning } })
      Locked := by
  unfold startUnit
  split
  next h =>
    have hready : (c.readinessPending || c.desiredRunning) = true := by rw [h, Bool.or_true]
    rw [hready]
    refine triple_bind (spec_save hc hlocked
      (.flags c.desiredRunning c.projectInitialized true c.adminInitialized hq)) fun _ => ?_
    refine spec_seq (spec_command ?_ ?_) fun _ => triple_pure fun w hw => ⟨rfl, hw⟩
    · cases restart
      all_goals rfl
    · rintro _ rfl
      exact hlocked
  next h =>
    have hready : (c.readinessPending || c.desiredRunning) = c.readinessPending := by
      rw [Bool.eq_false_iff.mpr h, Bool.or_false]
    rw [hready]
    refine triple_pure ?_
    rintro _ rfl
    rw [← hc]
    exact ⟨rfl, rfl⟩

/-- `apply` assigns the limits of the record, and keeps the lock when it fails. -/
theorem spec_apply {restart : Bool} (hq : q.marks) (happlies : q.applies c.quotas)
    (hc : v.config = some c) (hlocked : Locked v) :
    Spec platform i q (· = v) (apply platform i c restart)
      (fun c' v' => c' = c.applied ∧ v' = v.applied c) Locked := by
  have hforget : ∀ w, w = v → Locked w := fun w hw => hw ▸ hlocked
  unfold apply
  refine spec_seq (spec_forEach fun _ _ => spec_command rfl hforget) fun _ => ?_
  refine spec_seq (spec_command rfl hforget) fun _ => ?_
  refine spec_seq (spec_command rfl hforget) fun _ => ?_
  refine triple_bind (spec_initializeProject hq hc hlocked) fun c' => ?_
  refine triple_of_forall ?_
  rintro _ ⟨rfl, rfl⟩
  refine triple_bind (spec_limit rfl happlies fun _ => hlocked) fun _ => ?_
  have hforget' : ∀ w, w = { v with
      config := some { c with projectInitialized := true }
      limit := some c.projectLimit } → Locked w := by
    rintro _ rfl
    exact hlocked
  refine spec_seq (spec_command rfl hforget') fun _ => ?_
  refine spec_seq (spec_command rfl hforget') fun _ => ?_
  refine spec_seq (spec_firewall hforget') fun _ => ?_
  refine spec_seq (spec_command rfl hforget') fun _ => ?_
  refine triple_bind (spec_properties rfl (.applied happlies) fun _ => hlocked) fun _ => ?_
  exact spec_startUnit hq rfl hlocked

/-! ## Deletion -/

/-- What is left to say of a request that only keeps the agreement. -/
abbrev Trivially (_ : View) : Prop := True

theorem spec_removeIntent (hq : q.marks) (hlocked : Locked v) :
    Spec platform i q (· = v) (removeIntent i)
      (fun c w => Locked w ∧ w.config = c) Locked := by
  unfold removeIntent
  refine triple_bind (Q := fun c w => w = v ∧ v.config = c) (triple_get ?_) fun c => ?_
  · rintro s _ rfl
    exact ⟨rfl, rfl⟩
  · refine triple_of_forall ?_
    rintro _ ⟨rfl, hc⟩
    cases c with
    | none => exact triple_pure fun w hw => ⟨hw ▸ hlocked, hw ▸ hc⟩
    | some c =>
      refine triple_bind (spec_save hc hlocked
        (.flags false c.projectInitialized c.readinessPending c.adminInitialized hq)) fun _ => ?_
      refine triple_pure ?_
      rintro _ rfl
      exact ⟨hlocked, rfl⟩

theorem spec_moveAway {config : Option Config} (hq : q.removes) (hc : v.config = config)
    (hlocked : Locked v) :
    Spec platform i q (· = v) (moveAway i config) (fun _ w => Locked w ∧ w.config = none)
      Locked := by
  cases config with
  | none => exact triple_pure fun w hw => ⟨hw ▸ hlocked, hw ▸ hc⟩
  | some c =>
    refine triple_bind (spec_record hc hlocked) fun _ => ?_
    refine (spec_rename (v := { v with record := some ⟨c.port, c.projectId⟩ }) hq hc rfl hlocked
      hlocked).conseq (fun _ h => h) ?_ fun _ h => h
    rintro _ _ rfl
    exact ⟨hlocked, rfl⟩

theorem spec_cleanupDeleted (hc : v.config = none) :
    Spec platform i q (· = v) (cleanupDeleted i) (fun _ => Trivially) Trivially := by
  unfold cleanupDeleted
  refine triple_bind (Q := fun trash w => w = v ∧ v.trash = trash) (triple_get ?_) fun trash => ?_
  · rintro s _ rfl
    exact ⟨rfl, rfl⟩
  refine triple_of_forall ?_
  rintro _ ⟨rfl, htrash⟩
  refine triple_bind (Q := fun _ w => w.config = none ∧ w.trash = none) ?_ fun _ => ?_
  · unfold given
    cases htrash' : trash.isSome with
    | true =>
      refine (spec_removeTrash (E := Trivially) fun _ => trivial).conseq (fun _ h => h) ?_
        fun _ h => h
      rintro _ _ rfl
      exact ⟨hc, rfl⟩
    | false =>
      refine triple_pure ?_
      rintro _ rfl
      exact ⟨hc, htrash.trans (Option.isSome_eq_false_iff.mp htrash' |> Option.isNone_iff_eq_none.mp)⟩
  · refine triple_of_forall ?_
    rintro w ⟨hwc, hwtrash⟩
    refine (spec_locked (B := fun _ w => Locked w) (F := Locked) (E := Trivially) ?_
      (fun _ _ h => h) (fun _ h => h) fun _ _ => trivial).conseq (fun _ h => h)
      (fun _ _ _ => trivial) fun _ _ => trivial
    intro o
    refine (spec_unlink (v := { w with others := some o }) hwc hwtrash rfl).conseq (fun _ h => h)
      ?_ fun _ h => h
    rintro _ _ rfl
    rfl

theorem spec_remove {deleteData : Bool} :
    Spec platform i (.remove deleteData) (· = v) (remove platform i deleteData) (fun _ => Trivially) Trivially := by
  unfold remove
  refine spec_require_bind (fun _ _ => trivial) fun _ => ?_
  refine triple_bind (spec_locked (B := fun c w => Locked w ∧ w.config = c) (F := Locked)
    (fun o => spec_removeIntent rfl rfl) (fun _ _ h => h.1) (fun _ h => h) fun _ _ => trivial)
    fun config => ?_
  refine triple_of_forall ?_
  rintro _ ⟨w, ⟨-, hconfig⟩, rfl⟩
  refine spec_seq (spec_command rfl fun _ _ => trivial) fun _ => ?_
  refine triple_bind (spec_locked (B := fun _ w => Locked w ∧ w.config = none) (F := Locked) ?_
    (fun _ _ h => h.1) (fun _ h => h) fun _ _ => trivial) fun _ => ?_
  · intro o
    refine triple_bind (spec_moveAway rfl hconfig rfl) fun _ => ?_
    exact spec_firewall fun _ h => h.1
  · refine triple_of_forall ?_
    rintro _ ⟨w', ⟨-, hnone⟩, rfl⟩
    refine triple_bind (spec_cleanupDeleted hnone) fun _ => ?_
    exact spec_command rfl fun _ _ => trivial

/-! ## Creation -/

theorem freePort_spec {occupied : List Nat} {port : Nat} (h : freePort occupied = some port) :
    port ∉ occupied ∧ PORT_MIN ≤ port ∧ port ≤ PORT_MAX := by
  have hfree := List.find?_some h
  have hmem := List.mem_of_find?_eq_some h
  rw [List.mem_range'_1] at hmem
  have hmax : PORT_MAX = 30999 := rfl
  have hmin : PORT_MIN = 30000 := rfl
  refine ⟨by simpa using hfree, hmem.1, ?_⟩
  omega

variable {wanted : Option Nat}

/-- The port of a new instance is in the range and free. -/
theorem choosePort_spec {occupied : List Nat} {port : Nat}
    (hwanted : ∀ p, wanted = some p → PORT_MIN ≤ p ∧ p ≤ PORT_MAX)
    (h : choosePort wanted occupied = .ok port) :
    port ∉ occupied ∧ PORT_MIN ≤ port ∧ port ≤ PORT_MAX := by
  unfold choosePort at h
  cases wanted with
  | some p =>
    simp only at h
    split at h
    · exact absurd h (by simp)
    next hnot =>
      obtain rfl := Except.ok.inj h
      exact ⟨by simpa using hnot, hwanted p rfl⟩
  | none =>
    simp only at h
    cases hfree : freePort occupied with
    | none =>
      rw [hfree] at h
      exact absurd h (by simp)
    | some p =>
      rw [hfree] at h
      obtain rfl := Except.ok.inj h
      exact freePort_spec hfree

/-- A port that is not occupied is held by nobody. -/
theorem not_holds_of_not_mem_occupied {s : Host} {port : Nat} (h : port ∉ s.occupied)
    (j : InstanceId) : ¬ Holds s j port := by
  rintro (⟨c, hc, rfl⟩ | ⟨r, hr, rfl⟩)
  · refine h (List.mem_append_left _ (List.mem_map_of_mem ?_))
    exact List.mem_map.mpr ⟨_, Table.lookup_eq_some_iff.mp hc, rfl⟩
  · exact h (List.mem_append_right _
      (List.mem_map.mpr ⟨_, Table.lookup_eq_some_iff.mp hr, rfl⟩))

variable {owner : String} {engine : Engine}

theorem spec_creationRecord {target : Quotas} {others : Others} (hq : q.creates = true)
    (hrecord : v.record = none) (htrash : v.trash = none) (hothers : v.others = some others)
    (hfits : Fits platform others target 0)
    (hwanted : ∀ p, wanted = some p → PORT_MIN ≤ p ∧ p ≤ PORT_MAX) :
    Spec platform i q (· = v) (creationRecord i owner engine target wanted)
      (fun c w => Locked w ∧ w.config = some c) Locked := by
  have hlocked : Locked v := by rw [Locked, hothers]; rfl
  have hforget : ∀ w, w = v → Locked w := fun w hw => hw ▸ hlocked
  unfold creationRecord
  refine triple_bind (Q := fun c w => w = v ∧ v.config = c) (triple_get ?_) fun existing => ?_
  · rintro s _ rfl
    exact ⟨rfl, rfl⟩
  refine triple_of_forall ?_
  rintro v ⟨rfl, hc⟩
  cases existing with
  | some c =>
    refine spec_require_bind hforget fun _ => triple_pure ?_
    rintro _ rfl
    exact ⟨hlocked, hc⟩
  | none =>
    refine triple_bind (Q := fun port w => w = v ∧ ¬ others.ports port ∧ PORT_MIN ≤ port ∧
      port ≤ PORT_MAX) (triple_inspect ?_) fun port => ?_
    · rintro s _ rfl
      cases hport : choosePort wanted s.occupied with
      | error e => exact hlocked
      | ok port =>
        obtain ⟨hfree, hmin, hmax⟩ := choosePort_spec hwanted hport
        refine ⟨rfl, ?_, hmin, hmax⟩
        have hrest : s.rest i = others := by
          simpa [agreement, view, lock_of_others hlocked] using hothers
        rw [← hrest]
        rintro ⟨j, -, hj⟩
        exact not_holds_of_not_mem_occupied hfree j hj
    · refine triple_of_forall ?_
      rintro v ⟨rfl, hport, hmin, hmax⟩
      refine triple_bind (spec_create hq hc hrecord htrash hothers hport hmin hmax hfits) fun _ => ?_
      refine triple_of_forall ?_
      rintro _ ⟨limit, rfl⟩
      refine spec_seq (spec_write rfl) fun _ => ?_
      refine spec_seq (spec_command rfl ?_) fun _ => triple_pure ?_
      · rintro _ rfl
        exact hlocked
      · rintro _ rfl
        exact ⟨hlocked, rfl⟩

theorem spec_ensureSecret {A E : View → Prop} (hE : ∀ v, A v → E v) :
    Spec platform i q A (ensureSecret i) (fun _ => A) E := by
  unfold ensureSecret
  refine spec_seq (triple_get fun _ _ hA => hA) fun _ => spec_given fun _ => ?_
  refine spec_seq (triple_get fun _ _ hA => hA) fun _ => ?_
  refine spec_seq (spec_require hE) fun _ => ?_
  exact spec_seq (spec_write rfl) fun _ => spec_command rfl hE

/-- The two requests that create an instance, by the port they want. -/
def creationRequest (owner : String) (engine : Engine) (quotas : Quotas) (allowIps : List String)
    (reservations : Reservations) : Option Nat → Request
  | none => .create owner engine quotas allowIps reservations
  | some port => .restoreCreate owner engine quotas allowIps reservations port

variable {quotas : Quotas} {allowIps : List String} {reservations : Reservations}

theorem creates_creationRequest
     : (creationRequest owner engine quotas allowIps reservations wanted).creates = true := by
  cases wanted with
  | none => rfl
  | some port => rfl

theorem marks_creationRequest
     : (creationRequest owner engine quotas allowIps reservations wanted).marks = true := by
  cases wanted with
  | none => rfl
  | some port => rfl

theorem applies_creationRequest
     : (creationRequest owner engine quotas allowIps reservations wanted).applies c.quotas := by
  cases wanted with
  | none => trivial
  | some port => trivial

/-- The record that a creation saves is one of its edits. -/
theorem edit_openedRecord {c' : Config} (h : openedRecord c allowIps wanted = .ok c') :
    Edit platform (creationRequest owner engine quotas allowIps reservations wanted) v c c' := by
  unfold openedRecord at h
  cases hips : addresses allowIps with
  | error e =>
    cases wanted with
    | none => simp [hips, Except.map] at h
    | some port =>
      by_cases hempty : c.allowIps.isEmpty
      · simp [hips, Except.map, hempty] at h
      · simp only [Option.isNone_some, Bool.false_eq_true, if_false, hempty] at h
        cases h
        exact .flags c.desiredRunning c.projectInitialized c.readinessPending c.adminInitialized rfl
  | ok ips =>
    cases wanted with
    | none =>
      simp only [hips, Except.map, Option.isNone_none, if_true] at h
      cases h
      exact .created hips
    | some port =>
      by_cases hempty : c.allowIps.isEmpty
      · simp only [hips, Except.map, Option.isNone_some, Bool.false_eq_true, if_false, hempty,
          if_true] at h
        cases h
        exact .restoreCreated hips (List.isEmpty_iff.mp hempty)
      · simp only [Option.isNone_some, Bool.false_eq_true, if_false, hempty] at h
        cases h
        exact .flags c.desiredRunning c.projectInitialized c.readinessPending c.adminInitialized rfl

/-- The capacity check is about what the others reserve while the lock is held. -/
theorem spec_capacity {others : Others} {target : Quotas} {maintenance : Bool} {E : View → Prop}
    (hothers : v.others = some others) (hE : E v) :
    Spec platform i q (· = v) (Process.inspect (capacity platform i target maintenance))
      (fun _ w => w = v ∧
        Fits platform others target (if maintenance then MAINTENANCE_MEMORY else 0)) E := by
  refine triple_inspect ?_
  rintro s _ rfl
  cases hcapacity : capacity platform i target maintenance s with
  | error e => exact hE
  | ok u =>
    have hlocked : Locked (view i s) := by
      change Locked ((agreement platform).view i s)
      rw [Locked, hothers]
      rfl
    have hrest : s.rest i = others := by
      simpa [agreement, view, lock_of_others hlocked] using hothers
    rw [← hrest]
    exact ⟨rfl, fits_of_capacity hcapacity⟩

theorem spec_createLocked (hlocked : Locked v) :
    Spec platform i (creationRequest owner engine quotas allowIps reservations wanted) (· = v)
      (createLocked platform i owner engine quotas allowIps reservations wanted)
      (fun _ => Locked) Locked := by
  have hforget : ∀ w, w = v → Locked w := fun w hw => hw ▸ hlocked
  obtain ⟨others, hothers⟩ := Option.isSome_iff_exists.mp hlocked
  unfold createLocked
  refine spec_require_bind hforget fun hwanted => ?_
  have hrange : ∀ p, wanted = some p → PORT_MIN ≤ p ∧ p ≤ PORT_MAX := by
    rintro p rfl
    simpa using hwanted
  refine triple_bind (Q := fun deleting w => w = v ∧
    deleting = (v.record.isSome || v.trash.isSome)) (triple_get ?_) fun deleting => ?_
  · rintro s _ rfl
    exact ⟨rfl, rfl⟩
  refine triple_of_forall ?_
  rintro v ⟨rfl, rfl⟩
  refine spec_require_bind hforget fun hdeleting => ?_
  have hnone : v.record = none ∧ v.trash = none := by simpa using hdeleting
  refine spec_lift_bind hforget fun target htarget => ?_
  refine triple_bind (spec_capacity hothers hlocked) fun _ => ?_
  refine triple_of_forall ?_
  rintro v ⟨rfl, hfits⟩
  refine spec_seq (spec_reserveDisk hforget) fun _ => ?_
  refine triple_bind (spec_creationRecord creates_creationRequest hnone.1 hnone.2 hothers hfits hrange) fun c => ?_
  refine triple_of_forall ?_
  rintro w ⟨hlocked', hc⟩
  have hforget' : ∀ u, u = w → Locked u := fun u hu => hu ▸ hlocked'
  refine spec_seq (spec_ensureSecret hforget') fun _ => ?_
  refine spec_lift_bind hforget' fun c' hc' => ?_
  refine triple_bind (spec_save hc hlocked' (edit_openedRecord hc')) fun _ => ?_
  refine triple_bind (spec_apply marks_creationRequest applies_creationRequest rfl hlocked')
    fun _ => triple_pure ?_
  rintro _ ⟨-, rfl⟩
  exact hlocked'

/-- A section under the lock of which only the lock is known afterwards. -/
theorem spec_locked_trivial {α : Type} {p : Action α} {E : View → Prop}
    (hp : ∀ w, Locked w → w = { v with others := w.others } →
      Spec platform i q (· = w) p (fun _ => Locked) Locked)
    (hE : ∀ w, E w) : Spec platform i q (· = v) (locked i p) (fun _ => Trivially) E := by
  refine (spec_locked (B := fun _ => Locked) (F := Locked) (E := E) ?_ (fun _ _ h => h)
    (fun _ h => h) fun _ _ => hE _).conseq (fun _ h => h) (fun _ _ _ => trivial) fun _ h => h
  intro o
  exact hp _ rfl rfl

/-- A mark on the record, under the lock. -/
theorem spec_bootstrapMongo (hq : q.marks) (hc : v.config = some c) :
    Spec platform i q (· = v) (bootstrapMongo platform i c) (fun _ => Trivially) Trivially := by
  unfold bootstrapMongo given
  split
  next =>
    refine spec_seq ?_ fun _ => ?_
    · exact triple_tryCatch (spec_command rfl fun _ h => h) fun _ => triple_throw fun _ _ => trivial
    · refine spec_locked_trivial ?_ fun _ => trivial
      intro w hlocked hw
      have hc' : w.config = some c := by rw [hw]; exact hc
      refine triple_bind (spec_save hc' hlocked
        (.flags c.desiredRunning c.projectInitialized c.readinessPending true hq)) fun _ => ?_
      refine (spec_firewall fun _ h => h).conseq ?_ (fun _ _ h => h) fun _ h => h
      rintro _ rfl
      exact hlocked
  next => exact triple_pure fun _ _ => trivial

/-- The readiness gate changes the mark of the record and nothing else. -/
theorem spec_awaitReady (hq : q.marks) : Spec platform i q (· = v) (awaitReady i)
      (fun _ w => ∃ c ready, v.config = some c ∧ { w with others := none } =
        { v with config := some { c with readinessPending := ready }, others := none })
      Trivially := by
  unfold awaitReady
  refine triple_bind (spec_read trivial) fun c => ?_
  refine triple_of_forall ?_
  rintro v ⟨rfl, hc⟩
  unfold given
  split
  next =>
    refine spec_seq ?_ fun _ => ?_
    · exact triple_tryCatch (spec_command rfl fun _ h => h) fun _ => triple_throw fun _ _ => trivial
    · refine (spec_locked (B := fun _ w => Locked w ∧ { w with others := none } =
        { v with config := some { c with readinessPending := false }, others := none })
        (F := Locked) (E := Trivially) ?_ (fun _ _ h => h.1) (fun _ h => h)
        fun _ _ => trivial).conseq (fun _ h => h) ?_ fun _ h => h
      · intro o
        refine triple_bind (spec_read rfl) fun c' => ?_
        refine triple_of_forall ?_
        rintro _ ⟨rfl, hc'⟩
        cases hc.symm.trans hc'
        refine (spec_save hc' rfl
          (.flags c.desiredRunning c.projectInitialized false c.adminInitialized hq)).conseq
          (fun _ h => h) ?_ fun _ h => h
        rintro _ _ rfl
        exact ⟨rfl, rfl⟩
      · rintro _ _ ⟨w, ⟨-, hw⟩, rfl⟩
        exact ⟨c, false, hc, hw⟩
  next =>
    refine triple_pure ?_
    rintro v rfl
    refine ⟨c, c.readinessPending, hc, ?_⟩
    rw [← hc]

theorem spec_creation
     (wanted : Option Nat) :
    Spec platform i (creationRequest owner engine quotas allowIps reservations wanted) (· = v)
      (creation platform i owner engine quotas allowIps reservations wanted)
      (fun _ => Trivially) Trivially := by
  unfold creation
  refine triple_bind (spec_locked_trivial (E := Trivially)
    (fun w hlocked _ => spec_createLocked hlocked) fun _ => trivial) fun _ => ?_
  refine triple_of_forall fun v _ => ?_
  refine triple_bind (spec_read trivial) fun c => ?_
  refine triple_of_forall ?_
  rintro v ⟨rfl, hc⟩
  refine triple_bind (Q := fun _ => Trivially) ?_ fun _ => ?_
  · unfold given
    split
    · exact spec_bootstrapMongo marks_creationRequest hc
    · exact triple_pure fun _ _ => trivial
  · refine triple_of_forall fun w _ => ?_
    exact (spec_awaitReady marks_creationRequest).conseq (fun _ h => h) (fun _ _ _ => trivial)
      fun _ h => h

/-! ## Limits -/

theorem spec_checkReduction {size : Nat} {A E : View → Prop} (hE : ∀ v, A v → E v) :
    Spec platform i q A (checkReduction i c size) (fun _ => A) E :=
  spec_seq (spec_query rfl hE) fun _ => spec_require hE

/-- What a `limits` request leaves when it does not fail: the limits it names, accepted and
assigned, unless they were the accepted ones before; then it assigns nothing. -/
structure LimitsDone (quotas : Quotas) (c : Config) (v w : View) : Prop where
  changed : c.acceptedQuotas ≠ quotas → ∃ ready,
    w.config = some { (c.reserve quotas).applied.accept quotas with readinessPending := ready } ∧
      w.properties = some (c.reserve quotas).unitProperties ∧
        w.limit = some (c.reserve quotas).projectLimit
  unchanged : c.acceptedQuotas = quotas → ∃ ready,
    w.config = some { c.reserve quotas with readinessPending := ready } ∧
      w.properties = v.properties ∧ w.limit = v.limit

theorem spec_limitsLocked (hlocked : Locked v) :
    Spec platform i (.limits quotas reservations) (· = v)
      (limitsLocked platform i quotas reservations)
      (fun _ w => Locked w ∧ ∃ c, v.config = some c ∧ LimitsDone quotas c v w) Locked := by
  have hforget : ∀ w, w = v → Locked w := fun w hw => hw ▸ hlocked
  obtain ⟨others, hothers⟩ := Option.isSome_iff_exists.mp hlocked
  unfold limitsLocked
  refine triple_bind (spec_read hlocked) fun c => ?_
  refine triple_of_forall ?_
  rintro v ⟨rfl, hc⟩
  refine spec_lift_bind hforget fun target htarget => ?_
  obtain rfl := validateLimits_eq_ok htarget
  refine spec_seq (spec_given fun _ => spec_checkReduction hforget) fun _ => ?_
  refine triple_bind (spec_capacity hothers hlocked) fun _ => ?_
  refine triple_of_forall ?_
  rintro v ⟨rfl, hfits⟩
  refine spec_seq (spec_reserveDisk hforget) fun _ => ?_
  refine spec_seq (spec_given fun _ => ?_) fun _ => ?_
  · refine spec_seq (spec_command rfl hforget) fun _ => ?_
    refine triple_tryCatch (spec_checkReduction fun _ h => h) fun error => ?_
    refine spec_seq (spec_given fun _ => spec_command rfl hforget) fun _ => triple_throw hforget
  refine triple_bind (spec_save hc hlocked (.reserved hothers hfits)) fun _ => ?_
  unfold given
  split
  next hchanged =>
    have hne : c.acceptedQuotas ≠ target := by simpa using hchanged
    refine triple_bind (spec_apply rfl rfl rfl hlocked) fun c' => ?_
    refine triple_of_forall ?_
    rintro w ⟨rfl, rfl⟩
    refine (spec_save (v := View.applied { v with config := some (c.reserve target) }
      (c.reserve target)) rfl hlocked (.accepted rfl rfl rfl)).conseq (fun _ h => h) ?_ fun _ h => h
    rintro _ _ rfl
    exact ⟨hlocked, c, hc, fun _ => ⟨_, rfl, rfl, rfl⟩, fun h => absurd h hne⟩
  next hsame =>
    have heq : c.acceptedQuotas = target := by simpa using hsame
    refine triple_pure ?_
    rintro _ rfl
    exact ⟨hlocked, c, hc, fun h => absurd heq h, fun _ => ⟨_, rfl, rfl, rfl⟩⟩

theorem spec_limits :
    Spec platform i (.limits quotas reservations) (· = v) (limits platform i quotas reservations)
      (fun _ w => ∃ c, v.config = some c ∧ LimitsDone quotas c v w) Trivially := by
  unfold limits
  refine triple_bind (spec_locked
    (B := fun _ w => Locked w ∧ ∃ c, v.config = some c ∧ LimitsDone quotas c v w)
    (F := Locked) (E := Trivially) ?_ (fun _ _ h => h.1) (fun _ h => h) fun _ _ => trivial)
    fun _ => ?_
  · intro o
    refine (spec_limitsLocked rfl).conseq (fun _ h => h) ?_ fun _ h => h
    rintro _ w ⟨hlocked, c, hc, hdone⟩
    exact ⟨hlocked, c, hc, hdone.changed, hdone.unchanged⟩
  · refine triple_of_forall ?_
    rintro _ ⟨w, ⟨-, c, hc, hdone⟩, rfl⟩
    refine (spec_awaitReady rfl).conseq (fun _ h => h) ?_ fun _ h => h
    rintro _ u ⟨c', ready, hc', hu⟩
    obtain ⟨hconfig, -, -, hproperties, hlimit, -⟩ := View.mk.inj hu
    change w.config = some c' at hc'
    refine ⟨c, hc, ?_, ?_⟩
    · intro hne
      obtain ⟨r, hw, hp, hl⟩ := hdone.changed hne
      cases hc'.symm.trans hw
      exact ⟨ready, hconfig, hproperties.trans hp, hlimit.trans hl⟩
    · intro heq
      obtain ⟨r, hw, hp, hl⟩ := hdone.unchanged heq
      cases hc'.symm.trans hw
      exact ⟨ready, hconfig, hproperties.trans hp, hlimit.trans hl⟩

/-! ## Network and lifecycle -/

/-- A request that reads the record under the lock and saves another one. -/
theorem spec_edit {p : Config → Action Unit} (hp : ∀ w c, Locked w → w.config = some c →
      Spec platform i q (· = w) (p c) (fun _ => Locked) Locked) :
    Spec platform i q (· = v) (locked i (read i >>= p)) (fun _ => Trivially) Trivially := by
  refine spec_locked_trivial ?_ fun _ => trivial
  intro w hlocked _
  refine triple_bind (spec_read hlocked) fun c => ?_
  refine triple_of_forall ?_
  rintro w ⟨rfl, hc⟩
  exact hp w c hlocked hc

/-- Save an edited record under the lock, with a step after it that nobody can tell. -/
theorem spec_save_locked {c' : Config} (hc : v.config = some c) (hlocked : Locked v)
    (hedit : Edit platform q v c c') :
    Spec platform i q (· = v) (save i c') (fun _ => Locked) Locked := by
  refine (spec_save hc hlocked hedit).conseq (fun _ h => h) ?_ fun _ h => h
  rintro _ _ rfl
  exact hlocked

theorem spec_allow {applicationId : String} {values : List String} {mode : AllowMode} :
    Spec platform i (.allow applicationId values mode) (· = v)
      (allow platform i applicationId values mode) (fun _ => Trivially) Trivially := by
  refine spec_edit ?_
  intro w c hlocked hc
  have hforget : ∀ u, u = w → Locked u := fun u hu => hu ▸ hlocked
  refine spec_require_bind hforget fun _ => ?_
  refine spec_lift_bind hforget fun supplied hsupplied => ?_
  refine spec_lift_bind hforget fun c' hc' => ?_
  refine triple_bind (spec_save_locked hc hlocked (.allowed hsupplied hc')) fun _ => ?_
  exact spec_firewall fun _ h => h

theorem spec_start (hq : q.marks) :
    Spec platform i q (· = v) (start platform i) (fun _ => Trivially) Trivially := by
  unfold start
  refine triple_bind (spec_edit ?_) fun _ => ?_
  · intro w c hlocked hc
    refine triple_bind (spec_save_locked hc hlocked
      (.flags true c.projectInitialized true c.adminInitialized hq)) fun _ => ?_
    exact spec_seq (spec_firewall fun _ h => h) fun _ => spec_command rfl fun _ h => h
  · refine triple_of_forall fun w _ => ?_
    exact (spec_awaitReady hq).conseq (fun _ h => h) (fun _ _ _ => trivial) fun _ h => h

theorem spec_stop (hq : q.marks) :
    Spec platform i q (· = v) (stop i) (fun _ => Trivially) Trivially := by
  refine spec_edit ?_
  intro w c hlocked hc
  refine triple_bind (spec_save_locked hc hlocked
    (.flags false c.projectInitialized c.readinessPending c.adminInitialized hq)) fun _ => ?_
  exact spec_command rfl fun _ h => h

/-! ## Restore -/

theorem spec_restoreBeginLocked {backupSha256 : String} (hlocked : Locked v) :
    Spec platform i (.restoreBegin backupSha256) (· = v)
      (restoreBeginLocked platform i backupSha256)
      (fun limits w => Locked w ∧ ∀ l, limits = some l → ∃ c : Config,
        w.config = some (c.beginRestore backupSha256) ∧ l = c.restoreLimits) Locked := by
  obtain ⟨others, hothers⟩ := Option.isSome_iff_exists.mp hlocked
  unfold restoreBeginLocked
  refine triple_bind (spec_read hlocked) fun c => ?_
  refine triple_of_forall ?_
  rintro v ⟨rfl, hc⟩
  split
  next =>
    refine triple_pure ?_
    rintro v rfl
    exact ⟨hlocked, fun l hl => absurd hl (by simp)⟩
  next hnew =>
    refine triple_bind (spec_capacity hothers hlocked) fun _ => ?_
    refine triple_of_forall ?_
    rintro v ⟨rfl, hfits⟩
    refine triple_bind (spec_save hc hlocked (.restoreBegun hnew hothers hfits)) fun _ => ?_
    refine spec_seq (spec_firewall ?_) fun _ => triple_pure ?_
    · rintro _ rfl
      exact hlocked
    · rintro _ rfl
      refine ⟨hlocked, ?_⟩
      intro l hl
      exact ⟨c, rfl, (Option.some.inj hl).symm⟩

theorem spec_restoreBegin {backupSha256 : String} :
    Spec platform i (.restoreBegin backupSha256) (· = v) (restoreBegin platform i backupSha256)
      (fun _ => Trivially) Trivially := by
  unfold restoreBegin
  refine spec_require_bind (fun _ _ => trivial) fun _ => ?_
  refine triple_bind (spec_locked (F := Locked) (fun o => spec_restoreBeginLocked rfl)
    (fun _ _ h => h.1) (fun _ h => h) fun _ _ => trivial) fun limits => ?_
  refine triple_of_forall ?_
  rintro _ ⟨w, ⟨-, hw⟩, rfl⟩
  cases limits with
  | none => exact triple_pure fun _ _ => trivial
  | some l =>
    obtain ⟨c, hc, rfl⟩ := hw l rfl
    exact (spec_properties (v := { w with others := none }) hc .begun fun _ => trivial).conseq
      (fun _ h => h) (fun _ _ _ => trivial) fun _ h => h

theorem spec_pendingRestore (hlocked : Locked v) : Spec platform i q (· = v) (pendingRestore i)
      (fun r w => Locked w ∧ w.config = some r.1 ∧ r.1.restorePending = some r.2) Locked := by
  unfold pendingRestore
  refine triple_bind (spec_read hlocked) fun c => ?_
  refine triple_of_forall ?_
  rintro v ⟨rfl, hc⟩
  cases hpending : c.restorePending with
  | none => exact triple_throw fun w hw => hw ▸ hlocked
  | some completed =>
    refine triple_pure ?_
    rintro v rfl
    exact ⟨hlocked, hc, hpending⟩

theorem spec_restoreFinish {state : Option MigrationState} :
    Spec platform i (.restoreFinish state) (· = v) (restoreFinish platform i state)
      (fun _ => Trivially) Trivially := by
  unfold restoreFinish
  refine spec_require_bind (fun _ _ => trivial) fun _ => ?_
  refine triple_bind (spec_locked
    (B := fun r w => Locked w ∧ w.config = some r.1 ∧ r.1.restorePending = some r.2)
    (F := Locked) (fun o => spec_pendingRestore rfl)
    (fun _ _ h => h.1) (fun _ h => h) fun _ _ => trivial) fun r => ?_
  obtain ⟨c, completed⟩ := r
  refine triple_of_forall ?_
  rintro _ ⟨w, ⟨-, hc, hpending⟩, rfl⟩
  refine triple_bind (spec_properties (v := { w with others := none }) hc
    .finished fun _ => trivial) fun _ => ?_
  refine spec_locked_trivial ?_ fun _ => trivial
  intro u hlocked hu
  have hc' : u.config = some c := by rw [hu]; exact hc
  have hproperties : u.properties.map UnitProperties.memoryMax = some c.quotas.memoryBytes := by
    rw [hu]
    rfl
  refine triple_bind (spec_save_locked hc' hlocked (.restoreFinished hpending hproperties))
    fun _ => ?_
  exact spec_firewall fun _ h => h

/-! ## Migration -/

/-- The record as a copy may have marked it. -/
def Marked (v : View) (c : Config) (w : View) : Prop :=
  w = { v with config := some c } ∨ ∃ state, w = { v with config := some (c.mark state) }

variable {arguments : CopyArguments}

theorem spec_copyData (hc : v.config = some c) :
    Spec platform i (.copy arguments) (· = v) (copyData i c arguments) (fun _ => Marked v c)
      (Marked v c) := by
  have hself : ∀ w, w = v → Marked v c w := by
    rintro v rfl
    refine .inl ?_
    rw [← hc]
  unfold copyData
  refine spec_lift_bind hself fun _ _ => ?_
  split
  · exact triple_pure hself
  next hnot =>
    obtain ⟨hverified, hswitched⟩ := not_or.mp hnot
    have hmark : ∀ w, w = { v with config := some (c.mark .copying) } → Marked v c w :=
      fun w hw => .inr ⟨_, hw⟩
    refine triple_bind (spec_save_mark hc rfl rfl (.copied hverified hswitched)) fun _ => ?_
    refine spec_seq (spec_command rfl hmark) fun _ => ?_
    refine spec_seq (spec_query rfl hmark) fun _ => ?_
    refine spec_require_bind hmark fun _ => ?_
    have hedit : Edit platform (.copy arguments) { v with config := some (c.mark .copying) }
        (c.mark .copying) (c.mark .verified) :=
      Edit.copied (c := c.mark .copying) (by simp [Config.mark]) (by simp [Config.mark])
    have hmemory : (c.mark .verified).memoryReservation = (c.mark .copying).memoryReservation := rfl
    refine (spec_save_mark rfl hmemory rfl hedit).conseq (fun _ h => h) ?_ fun _ h => h
    rintro _ _ rfl
    exact .inr ⟨.verified, rfl⟩

/-- A copy takes the memory it needs, under the lock. -/
theorem spec_takeMemory (hc : v.config = some c) (hlocked : Locked v) (hengine : c.engine = .mongo)
    (hmemory : c.quotas.memoryBytes < GIB) :
    Spec platform i (.copy arguments) (· = v) (do
        Process.inspect (capacity platform i c.copyLimits true)
        save i c.boost
        apply platform i c.boost false)
      (fun c' w => Locked w ∧ c' = c.boost.applied ∧ w.config = some c.boost.applied) Locked := by
  obtain ⟨others, hothers⟩ := Option.isSome_iff_exists.mp hlocked
  refine triple_bind (spec_capacity hothers hlocked) fun _ => ?_
  refine triple_of_forall ?_
  rintro v ⟨rfl, hfits⟩
  refine triple_bind (spec_save hc hlocked (.boosted hengine hmemory hothers hfits)) fun _ => ?_
  refine (spec_apply (q := .copy arguments) (v := { v with config := some c.boost }) rfl trivial rfl
    hlocked).conseq (fun _ h => h) ?_
    fun _ h => h
  rintro _ _ ⟨rfl, rfl⟩
  exact ⟨hlocked, rfl, rfl⟩

theorem spec_copyInstance (hc : v.config = some c) :
    Spec platform i (.copy arguments) (· = v) (copyInstance platform i c arguments)
      (fun _ => Trivially) Trivially := by
  unfold copyInstance
  split
  next hboosted =>
    obtain ⟨hengine, hmemory⟩ := hboosted
    refine triple_bind (spec_locked
      (B := fun c' w => Locked w ∧ c' = c.boost.applied ∧ w.config = some c.boost.applied)
      (F := Locked) ?_ (fun _ _ h => h.1) (fun _ h => h) fun _ _ => trivial) fun c' => ?_
    · intro o
      exact spec_takeMemory hc rfl hengine hmemory
    · refine triple_of_forall ?_
      rintro _ ⟨w, ⟨-, rfl, hw⟩, rfl⟩
      have hfinally : ∀ u, Marked { w with others := none } c.boost.applied u →
          Spec platform i (.copy arguments) (· = u) (locked i do
            let config ← read i
            save i config.unboost
            let _ ← apply platform i config.unboost false) (fun _ => Trivially) Trivially := by
        intro u hu
        have hu' : ∃ d, u.config = some d ∧ d.engine = .mongo ∧ d.quotas.memoryBytes < GIB := by
          rcases hu with rfl | ⟨state, rfl⟩
          · exact ⟨_, rfl, hengine, hmemory⟩
          · exact ⟨_, rfl, hengine, hmemory⟩
        obtain ⟨d, hd, hengine', hmemory'⟩ := hu'
        refine spec_locked_trivial ?_ fun _ => trivial
        intro w hlocked hw
        refine triple_bind (spec_read hlocked) fun d' => ?_
        refine triple_of_forall ?_
        rintro w ⟨rfl, hd'⟩
        rw [hw] at hd'
        cases hd.symm.trans hd'
        have hconfig : w.config = some d := by rw [hw]; exact hd
        refine triple_bind (spec_save hconfig hlocked (.unboosted hengine' hmemory')) fun _ => ?_
        refine triple_bind (spec_apply (q := .copy arguments) rfl trivial rfl hlocked)
          fun _ => triple_pure ?_
        rintro _ ⟨-, rfl⟩
        exact hlocked
      refine triple_andFinally (spec_copyData hw) (fun _ => ?_) ?_
      · exact triple_of_forall hfinally
      · exact triple_of_forall hfinally
  next =>
    exact (spec_copyData hc).conseq (fun _ h => h) (fun _ _ _ => trivial) fun _ _ => trivial

theorem spec_copy :
    Spec platform i (.copy arguments) (· = v) (copy platform i arguments) (fun _ => Trivially)
      Trivially := by
  refine triple_bind (spec_read trivial) fun c => ?_
  refine triple_of_forall ?_
  rintro v ⟨rfl, hc⟩
  exact spec_copyInstance hc

theorem spec_restore :
    Spec platform i .restore (· = v) (restore platform i) (fun _ => Trivially) Trivially := by
  refine spec_edit ?_
  intro w c hlocked hc
  refine triple_bind (Q := fun _ => Locked) ?_ fun _ => spec_firewall fun _ h => h
  refine triple_tryCatch (B := Locked) ?_ fun _ => triple_pure fun _ h => h
  refine (spec_apply (q := .restore) rfl trivial hc hlocked).conseq (fun _ h => h) ?_ fun _ h => h
  rintro _ _ ⟨-, rfl⟩
  exact hlocked

/-- **Every request keeps the agreement.** -/
theorem spec_dispatch (platform : Platform) (i : InstanceId) (q : Request) (v : View) :
    Spec platform i q (· = v) (dispatch platform i q) (fun _ => Trivially) Trivially := by
  cases q with
  | create owner engine quotas allowIps reservations => exact spec_creation none
  | restoreCreate owner engine quotas allowIps reservations port =>
    exact spec_creation (some port)
  | remove deleteData => exact spec_remove
  | limits quotas reservations =>
    exact spec_limits.conseq (fun _ h => h) (fun _ _ _ => trivial) fun _ h => h
  | allow applicationId values mode => exact spec_allow
  | start => exact spec_start rfl
  | stop => exact spec_stop rfl
  | restoreBegin backupSha256 => exact spec_restoreBegin
  | restoreFinish state => exact spec_restoreFinish
  | copy arguments => exact spec_copy
  | freeze role =>
    refine spec_edit fun w c hlocked hc => ?_
    unfold given
    split
    · exact spec_save_locked hc hlocked .frozen
    · exact triple_pure fun u hu => hu ▸ hlocked
  | abortCopy operationId =>
    refine spec_edit fun w c hlocked hc => ?_
    refine triple_bind (spec_save_locked hc hlocked .aborted) fun _ => ?_
    exact spec_firewall fun _ h => h
  | sealCopy operationId =>
    refine spec_edit fun w c hlocked hc => ?_
    refine spec_lift_bind (fun u hu => hu ▸ hlocked) fun c' hc' => ?_
    exact spec_save_locked hc hlocked (.sealed hc')
  | restore => exact spec_restore

end StorageInstances
end OpenstackPlatform
