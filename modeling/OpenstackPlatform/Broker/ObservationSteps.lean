import OpenstackPlatform.Broker.Observations

/-!
# What the steps of the observations do

`Steps` says once what each step does, with one constructor for each way that a label can go, and
`steps_of_step` that a step does nothing else.  What the transactions of the journal do with the
intents of an application is `Admits` (one intent more) or `SameOwners` (the same intents); its count
and its latest time follow.  `Inv` is what every step keeps.
-/

namespace OpenstackPlatform
namespace Broker
namespace Observations

open Library

/-! ## Counting and dating intents -/

theorem foldr_max_le_iff {l : List Nat} {m : Nat} : l.foldr max 0 ≤ m ↔ ∀ n ∈ l, n ≤ m := by
  induction l with
  | nil => simp
  | cons n l ih =>
    rw [List.foldr_cons, Nat.max_le, ih, List.forall_mem_cons]

theorem foldr_max_mem (l : List Nat) : l.foldr max 0 = 0 ∨ l.foldr max 0 ∈ l := by
  induction l with
  | nil => exact .inl rfl
  | cons n l ih =>
    rw [List.foldr_cons]
    rcases Nat.le_total (l.foldr max 0) n with hle | hle
    · rw [Nat.max_eq_left hle]
      exact .inr List.mem_cons_self
    · rw [Nat.max_eq_right hle]
      exact ih.imp_right (List.mem_cons_of_mem n)

section Fingerprint

variable {b b' : Board} {updated updated' : IntentId → Nat} {app : AppId} {i : IntentId}

/-- The same intents, each of the same application. -/
def SameOwners (b b' : Board) : Prop :=
  ∀ k, (b'.intents.lookup k).map Intent.app = (b.intents.lookup k).map Intent.app

/-- One intent more. -/
structure Admits (b b' : Board) (i : IntentId) (app : Option AppId) : Prop where
  fresh : b.intents.lookup i = none
  new : (b'.intents.lookup i).map Intent.app = some app
  others : ∀ k ≠ i, (b'.intents.lookup k).map Intent.app = (b.intents.lookup k).map Intent.app
  apps : ∀ a, app ≠ some a → b'.apps.lookup a = b.apps.lookup a

theorem mem_dated {n : Nat} :
    n ∈ (b.intents.entries.filter fun e => e.2.app == some app).map (fun e => updated e.1) ↔
      ∃ k, (b.intents.lookup k).map Intent.app = some (some app) ∧ updated k = n := by
  simp only [List.mem_map, List.mem_filter, beq_iff_eq, Option.map_eq_some_iff]
  constructor
  · rintro ⟨e, ⟨hmem, happ⟩, hn⟩
    exact ⟨e.1, ⟨e.2, Table.lookup_eq_some_iff.mpr hmem, happ⟩, hn⟩
  · rintro ⟨k, ⟨row, hrow, happ⟩, hn⟩
    exact ⟨⟨k, row⟩, ⟨Table.lookup_eq_some_iff.mp hrow, happ⟩, hn⟩

theorem latest_le_iff {m : Nat} : latest b updated app ≤ m ↔
    ∀ k, (b.intents.lookup k).map Intent.app = some (some app) → updated k ≤ m := by
  unfold latest
  rw [foldr_max_le_iff]
  constructor
  · intro h k hk
    exact h _ (mem_dated.mpr ⟨k, hk, rfl⟩)
  · intro h n hn
    obtain ⟨k, hk, rfl⟩ := mem_dated.mp hn
    exact h k hk

theorem latest_eq_zero_or (b : Board) (updated : IntentId → Nat) (app : AppId) :
    latest b updated app = 0 ∨ ∃ k, updated k = latest b updated app := by
  rcases foldr_max_mem ((b.intents.entries.filter fun e => e.2.app == some app).map
    fun e => updated e.1) with hzero | hmem
  · exact .inl hzero
  · obtain ⟨k, -, hk⟩ := mem_dated.mp hmem
    exact .inr ⟨k, hk⟩

theorem le_latest (h : (b.intents.lookup i).map Intent.app = some (some app)) :
    updated i ≤ latest b updated app :=
  latest_le_iff.mp (Nat.le_refl _) i h

/-- The latest time depends on which intents are the application's, and on their times. -/
theorem latest_congr (howned : ∀ k, (b'.intents.lookup k).map Intent.app = some (some app) ↔
      (b.intents.lookup k).map Intent.app = some (some app))
    (h : ∀ k, (b.intents.lookup k).map Intent.app = some (some app) → updated' k = updated k) :
    latest b' updated' app = latest b updated app := by
  refine Nat.le_antisymm (latest_le_iff.mpr fun k hk => ?_) (latest_le_iff.mpr fun k hk => ?_)
  · have hold := (howned k).mp hk
    rw [h k hold]
    exact le_latest hold
  · rw [← h k hk]
    exact le_latest ((howned k).mpr hk)

theorem count_congr (howners : SameOwners b b') : count b' app = count b app :=
  Table.countP_congr howners fun a => a == some app

theorem count_insert (hnew : b.intents.lookup i = none) (row : Intent) :
    count { b with intents := b.intents.insert i row } app =
      count b app + if row.app = some app then 1 else 0 := by
  unfold count
  rw [AList.entries_insert_of_notMem (AList.lookup_eq_none.mp hnew), List.countP_cons]
  simp only [beq_iff_eq]

theorem Admits.count {app' : Option AppId} (h : Admits b b' i app') (app : AppId) :
    count b' app = count b app + if app' = some app then 1 else 0 := by
  obtain ⟨row, hrow, happ⟩ := Option.map_eq_some_iff.mp h.new
  rw [← happ, ← count_insert h.fresh row]
  refine count_congr fun k => ?_
  show (b'.intents.lookup k).map Intent.app = ((b.intents.insert i row).lookup k).map Intent.app
  rw [Table.lookup_insert_ite]
  split
  next heq => rw [heq, hrow]
  next hne => exact h.others k hne

end Fingerprint

/-! ## What the transactions do with intents and applications -/

section Transactions

variable {b b' : Board} {i : IntentId} {app : AppId}

theorem SameOwners.refl (b : Board) : SameOwners b b := fun _ => rfl

theorem SameOwners.owned (h : SameOwners b b') (k : IntentId) :
    (b'.intents.lookup k).map Intent.app = some (some app) ↔
      (b.intents.lookup k).map Intent.app = some (some app) := by
  rw [h k]

theorem sameOwners_modify (f : Intent → Intent) (hf : ∀ row, (f row).app = row.app) :
    SameOwners b { b with intents := b.intents.modify i f } := by
  intro k
  show ((b.intents.modify i f).lookup k).map Intent.app = _
  rw [Table.lookup_modify]
  split
  · rw [Option.map_map]
    congr 1
    funext row
    exact hf row
  · rfl

theorem sameOwners_setState (state : IntentState) : SameOwners b (b.setState i state) :=
  sameOwners_modify _ fun _ => rfl

theorem sameOwners_retireApp : SameOwners b (b.retireApp app) := by
  intro k
  show ((b.intents.mapRows _).lookup k).map Intent.app = _
  rw [Table.lookup_mapRows, Option.map_map]
  congr 1
  funext row
  rw [Function.comp_apply]
  split <;> rfl

theorem apps_retireApp {a : AppId} (hne : a ≠ app) :
    (b.retireApp app).apps.lookup a = b.apps.lookup a := by
  show (b.apps.modify app _).lookup a = _
  rw [Table.lookup_modify, if_neg hne]

theorem admits_record {intent : Intent} (h : b.record i intent = some b') :
    Admits b b' i intent.app := by
  unfold Board.record at h
  split at h
  next hnone =>
    cases h
    refine ⟨Option.isNone_iff_eq_none.mp hnone, ?_, fun k hk => ?_, fun _ _ => rfl⟩
    · rw [AList.lookup_insert, Option.map_some]
    · rw [AList.lookup_insert_ne hk]
  next => cases h

theorem Admits.setState {app : Option AppId} (h : Admits b b' i app) (state : IntentState) :
    Admits b (b'.setState i state) i app where
  fresh := h.fresh
  new := (sameOwners_setState state i).trans h.new
  others k hk := (sameOwners_setState state k).trans (h.others k hk)
  apps := h.apps

theorem admits_create {owner user : UserId} {admin : Bool}
    (h : b.create i app owner user admin = some b') : Admits b b' i (some app) := by
  simp only [Board.create, Option.bind_eq_bind, Option.bind_eq_some_iff, Option.guard_eq_some']
    at h
  obtain ⟨-, -, b₁, hrecord, h⟩ := h
  cases h
  have hadmits := admits_record hrecord
  refine ⟨hadmits.fresh, hadmits.new, hadmits.others, fun a ha => ?_⟩
  rw [AList.lookup_insert_ne (by rintro rfl; exact ha rfl)]
  exact hadmits.apps a ha

theorem admits_adopt {owner user : UserId} {revision : Nat} {configuration : Configuration}
    (h : b.adopt i app owner user revision configuration = some b') : Admits b b' i (some app) := by
  simp only [Board.adopt, Option.bind_eq_bind, Option.bind_eq_some_iff, Option.guard_eq_some']
    at h
  obtain ⟨-, -, b₁, hrecord, h⟩ := h
  cases h
  have hadmits := admits_record hrecord
  have hinserted : Admits b { b₁ with
      apps := b₁.apps.insert app { owner := owner, lifecycle := .ready, revision := revision }
      configurations := b₁.configurations.insert (app, revision) configuration } i (some app) := by
    refine ⟨hadmits.fresh, hadmits.new, hadmits.others, fun a ha => ?_⟩
    rw [AList.lookup_insert_ne (by rintro rfl; exact ha rfl)]
    exact hadmits.apps a ha
  exact hinserted.setState .succeeded

theorem admits_save {user : UserId} {admin : Bool} {revision : Nat}
    {configuration : Configuration}
    (h : b.save i app user admin revision configuration = some b') : Admits b b' i (some app) := by
  simp only [Board.save, Option.bind_eq_bind, Option.bind_eq_some_iff, Option.guard_eq_some'] at h
  obtain ⟨row, -, -, -, b₁, hrecord, h⟩ := h
  cases h
  have hadmits := admits_record hrecord
  have hsaved : Admits b b₁ i (some app) := by
    refine ⟨hadmits.fresh, hadmits.new, hadmits.others, fun a ha => (hadmits.apps a ha).trans ?_⟩
    show (b.apps.modify app _).lookup a = _
    rw [Table.lookup_modify, if_neg (by rintro rfl; exact ha rfl)]
  exact hsaved.setState .succeeded

theorem sameOwners_writeAnswer (flight : Flight) (reply : Option Reply) :
    SameOwners b (b.writeAnswer flight reply) :=
  sameOwners_modify _ fun _ => rfl

theorem sameOwners_answer (flight : Flight) (reply : Option Reply) :
    SameOwners b (b.answer flight reply) := by
  unfold Board.answer
  split
  · exact fun k => (sameOwners_retireApp k).trans (sameOwners_writeAnswer flight reply k)
  · exact sameOwners_writeAnswer flight reply
  · exact sameOwners_writeAnswer flight reply
  · exact sameOwners_writeAnswer flight reply

/-- A final write changes the application of its flight only. -/
theorem apps_answer {flight : Flight} (reply : Option Reply) {a : AppId}
    (hne : flight.row.app ≠ some a) : (b.answer flight reply).apps.lookup a = b.apps.lookup a := by
  have hmodify : ∀ (app : AppId) (f : App → App), flight.row.app = some app →
      (b.apps.modify app f).lookup a = b.apps.lookup a := by
    intro app f happ
    rw [Table.lookup_modify, if_neg (by rintro rfl; exact hne happ)]
  unfold Board.answer
  split
  next happ _ => exact hmodify _ _ happ
  next happ _ => exact hmodify _ _ happ
  next happ _ => exact hmodify _ _ happ
  next => rfl

end Transactions

section Journals

variable {j j' : Journal} {l : JournalLabel}

theorem next_admitted {i : IntentId} {app : Option AppId} (hl : admitted l = some (i, app))
    (h : j.next l = some j') : Admits j.board j'.board i app ∧ j'.flights = j.flights := by
  cases l with
  | record i' intent =>
    cases hl
    obtain ⟨b, hrecord, rfl⟩ := Option.map_eq_some_iff.mp h
    exact ⟨admits_record hrecord, rfl⟩
  | create i' app' owner user admin =>
    cases hl
    obtain ⟨b, hcreate, rfl⟩ := Option.map_eq_some_iff.mp h
    exact ⟨admits_create hcreate, rfl⟩
  | adopt i' app' owner user revision configuration =>
    cases hl
    obtain ⟨b, hadopt, rfl⟩ := Option.map_eq_some_iff.mp h
    exact ⟨admits_adopt hadopt, rfl⟩
  | save i' app' user admin revision configuration =>
    cases hl
    obtain ⟨b, hsave, rfl⟩ := Option.map_eq_some_iff.mp h
    exact ⟨admits_save hsave, rfl⟩
  | take f i' secret authorized now timeout => exact absurd hl (by simp [admitted])
  | answer f reply => exact absurd hl (by simp [admitted])
  | observeDeleted app' => exact absurd hl (by simp [admitted])
  | resume i' => exact absurd hl (by simp [admitted])

/-- What neither admits nor records: a flight that is new has the row that is there. -/
theorem next_passes (hl : passes l = true) (h : j.next l = some j') :
    SameOwners j.board j'.board ∧ j'.board.apps = j.board.apps ∧
      ∀ f flight, j'.flights.lookup f = some flight →
        j.flights.lookup f = some flight ∨
          j.board.intents.lookup flight.intent = some flight.row := by
  cases l with
  | take f i secret authorized now timeout =>
    simp only [Journal.next] at h
    split at h
    next row hrow =>
      split at h
      next =>
        cases h
        unfold Board.take
        split
        · exact ⟨sameOwners_setState _, rfl, fun f' flight hflight => .inl hflight⟩
        · refine ⟨sameOwners_modify _ fun _ => rfl, rfl, fun f' flight hflight => ?_⟩
          simp only [Journal.depart, Table.lookup_insert_ite] at hflight
          split at hflight
          · cases hflight
            exact .inr hrow
          · exact .inl hflight
      next => cases h
    next => cases h
  | resume i =>
    obtain ⟨b, hresume, rfl⟩ := Option.map_eq_some_iff.mp h
    unfold Board.resume at hresume
    split at hresume
    next =>
      split at hresume
      · cases hresume
      split at hresume
      · cases hresume
      split at hresume
      · cases hresume
        exact ⟨sameOwners_setState _, rfl, fun f flight hflight => .inl hflight⟩
      · cases hresume
        exact ⟨.refl _, rfl, fun f flight hflight => .inl hflight⟩
    next => cases hresume
  | record i intent => exact absurd hl (by simp [passes])
  | create i app owner user admin => exact absurd hl (by simp [passes])
  | adopt i app owner user revision configuration => exact absurd hl (by simp [passes])
  | save i app user admin revision configuration => exact absurd hl (by simp [passes])
  | answer f reply => exact absurd hl (by simp [passes])
  | observeDeleted app => exact absurd hl (by simp [passes])

end Journals

/-! ## What a step does -/

/-- What a step does, one constructor for each way that a label can go. -/
inductive Steps (s : State) : Label → Event → State → Prop
  | admission {l : JournalLabel} {now : Nat} {i : IntentId} {app : Option AppId} {j : Journal}
      (hl : admitted l = some (i, app)) (hnow : s.clock < now) (hj : s.journal.next l = some j) :
      Steps s (.admission l now) (.ofMutation app)
        { s with
          journal := j, updated := Function.update s.updated i now
          observations := invalidate s.observations app, clock := now }
  | passing {l : JournalLabel} {j : Journal} (hl : passes l = true)
      (hj : s.journal.next l = some j) : Steps s (.passing l) .silent { s with journal := j }
  | reply {f now : Nat} {r : Option Reply} (hnone : s.answers.lookup f = none)
      (hnow : s.clock < now) :
      Steps s (.reply f r now) .silent
        { s with answers := s.answers.insert f (r, now), clock := now }
  | answer {f now : Nat} {flight : Flight} {r : Option Reply}
      (hflight : s.journal.flights.lookup f = some flight)
      (hanswer : s.answers.lookup f = some (r, now)) (hretires : retires flight r = none) :
      Steps s (.answer f) (.ofMutation flight.row.app)
        { s with
          journal := ⟨s.board.answer flight r, s.journal.flights.erase f⟩
          answers := s.answers.erase f
          updated := Function.update s.updated flight.intent now
          observations := invalidate s.observations flight.row.app }
  | answerRetires {f now : Nat} {flight : Flight} {r : Option Reply} {app : AppId}
      (hflight : s.journal.flights.lookup f = some flight)
      (hanswer : s.answers.lookup f = some (r, now)) (happ : flight.row.app = some app) :
      Steps s (.answer f) (.mutated app)
        { s with
          journal := ⟨s.board.answer flight r, s.journal.flights.erase f⟩
          answers := s.answers.erase f
          updated := retired (s.board.writeAnswer flight r) app now
            (Function.update s.updated flight.intent now)
          observations := (invalidate s.observations (some app)).erase app }
  | missing {r now : Nat} {app : AppId} (hnone : s.retirements.lookup r = none)
      (hnow : s.clock < now) :
      Steps s (.missing r app now) .silent
        { s with retirements := s.retirements.insert r (app, now), clock := now }
  | retire {r now : Nat} {app : AppId} (hr : s.retirements.lookup r = some (app, now))
      (hboard : s.board.observeDeleted app = s.board.retireApp app) :
      Steps s (.retire r) (.mutated app)
        { s with
          journal := { s.journal with board := s.board.retireApp app }
          updated := retired s.board app now s.updated
          observations := s.observations.erase app, retirements := s.retirements.erase r }
  | retireLate {r now : Nat} {app : AppId} (hr : s.retirements.lookup r = some (app, now)) :
      Steps s (.retire r) .silent { s with retirements := s.retirements.erase r }
  | start {p cacheSeconds now : Nat} {app : AppId} {row : App} {cached : Option Observation}
      (hnone : s.probes.lookup p = none) (hnow : s.clock < now) :
      Steps s (.start p app row cached cacheSeconds now) (.started p app)
        { s with
          probes := s.probes.insert p
            { app := app, row := row, cached := cached, generation := s.generation app }
          clock := now }
  | write {p observedAt now : Nat} {probe : Probe} {answer : Option AppAnswer}
      {deployed : Option DeploymentAnswer} {body : Body} (hprobe : s.probes.lookup p = some probe)
      (hnow : s.clock < now) (hunchanged : s.unchanged probe = true) :
      Steps s (.finish p answer deployed observedAt now) (.wrote p probe.app)
        { s with
          probes := s.probes.erase p, clock := now
          observations := s.observations.insert probe.app ⟨body, now⟩ }
  | drop {p observedAt now : Nat} {answer : Option AppAnswer}
      {deployed : Option DeploymentAnswer} (hnow : s.clock < now) :
      Steps s (.finish p answer deployed observedAt now) .silent
        { s with probes := s.probes.erase p, clock := now }

section Inversion

variable {s t : State} {e : Event}

theorem steps_admission {l : JournalLabel} {now : Nat} (h : s.admission l now = some (t, e)) :
    Steps s (.admission l now) e t := by
  simp only [State.admission, Option.bind_eq_bind, Option.bind_eq_some_iff, Option.guard_eq_some']
    at h
  obtain ⟨⟨i, app⟩, hl, -, hnow, j, hj, h⟩ := h
  cases h
  exact .admission hl hnow hj

theorem steps_answer {f : Nat} (h : s.answer f = some (t, e)) : Steps s (.answer f) e t := by
  simp only [State.answer, Option.bind_eq_bind, Option.bind_eq_some_iff] at h
  obtain ⟨flight, hflight, ⟨r, now⟩, hanswer, j, hj, h⟩ := h
  obtain ⟨flight', hflight', rfl⟩ := Option.map_eq_some_iff.mp hj
  cases hflight.symm.trans hflight'
  split at h
  next app happ =>
    cases h
    unfold retires at happ
    split at happ
    · have hsteps := Steps.answerRetires hflight hanswer happ
      rw [happ]
      exact hsteps
    · cases happ
  next hnone =>
    cases h
    exact .answer hflight hanswer hnone

theorem steps_retire {r : Nat} (h : s.retire r = some (t, e)) : Steps s (.retire r) e t := by
  simp only [State.retire, Option.bind_eq_bind, Option.bind_eq_some_iff] at h
  obtain ⟨⟨app, now⟩, hr, j, hj, h⟩ := h
  cases hj
  have hboard : s.journal.board = s.board := rfl
  split at h
  next hready =>
    cases h
    have hretire : s.board.observeDeleted app = s.board.retireApp app := by
      unfold Board.observeDeleted
      exact if_pos hready
    rw [hboard, hretire]
    exact .retire hr hretire
  next hready =>
    cases h
    have hkeep : s.board.observeDeleted app = s.board := by
      unfold Board.observeDeleted
      exact if_neg hready
    rw [hboard, hkeep]
    exact .retireLate hr

theorem steps_finish {p observedAt now : Nat} {answer : Option AppAnswer}
    {deployed : Option DeploymentAnswer}
    (h : s.finish p answer deployed observedAt now = some (t, e)) :
    Steps s (.finish p answer deployed observedAt now) e t := by
  simp only [State.finish, Option.bind_eq_bind, Option.bind_eq_some_iff, Option.guard_eq_some']
    at h
  obtain ⟨probe, hprobe, -, ⟨hobserved, hnow⟩, h⟩ := h
  have hclock := hobserved.trans hnow
  split at h
  next body =>
    split at h
    next hunchanged =>
      cases h
      exact .write hprobe hclock hunchanged
    next =>
      cases h
      exact .drop hclock
  next =>
    cases h
    exact .drop hclock

theorem steps_of_step {l : Label × Event} (h : s.step l t) : Steps s l.1 l.2 t := by
  obtain ⟨l, e⟩ := l
  change s.next l = some (t, e) at h
  cases l with
  | admission l now => exact steps_admission h
  | passing l =>
    simp only [State.next, Option.bind_eq_bind, Option.bind_eq_some_iff, Option.guard_eq_some']
      at h
    obtain ⟨-, hl, j, hj, h⟩ := h
    cases h
    exact .passing hl hj
  | reply f reply now =>
    simp only [State.next, Option.bind_eq_bind, Option.bind_eq_some_iff, Option.guard_eq_some',
      Option.isNone_iff_eq_none] at h
    obtain ⟨-, ⟨-, hnone, hnow⟩, h⟩ := h
    cases h
    exact .reply hnone hnow
  | answer f => exact steps_answer h
  | missing r app now =>
    simp only [State.next, Option.bind_eq_bind, Option.bind_eq_some_iff, Option.guard_eq_some',
      Option.isNone_iff_eq_none] at h
    obtain ⟨-, ⟨hnone, hnow⟩, h⟩ := h
    cases h
    exact .missing hnone hnow
  | retire r => exact steps_retire h
  | start p app row cached cacheSeconds now =>
    simp only [State.next, State.start, Option.bind_eq_bind, Option.bind_eq_some_iff,
      Option.guard_eq_some', Option.isNone_iff_eq_none] at h
    obtain ⟨-, ⟨hnone, hnow⟩, -, -, h⟩ := h
    cases h
    exact .start hnone hnow
  | finish p answer deployed observedAt now => exact steps_finish h

end Inversion

/-! ## The invariant -/

/-- A flight keeps the application of its intent; no time is of the future, and a pending outcome
has a time of its own. -/
structure Inv (s : State) : Prop where
  flights : ∀ f flight, s.journal.flights.lookup f = some flight →
    (s.board.intents.lookup flight.intent).map Intent.app = some flight.row.app
  updated : ∀ i, s.updated i ≤ s.clock
  retirements : ∀ r app now, s.retirements.lookup r = some (app, now) → now ≤ s.clock
  answers : ∀ f r now, s.answers.lookup f = some (r, now) → 0 < now ∧ now ≤ s.clock
  pending : ∀ f r now, s.answers.lookup f = some (r, now) → ∀ i, s.updated i ≠ now
  distinct : ∀ f f' r r' now, s.answers.lookup f = some (r, now) →
    s.answers.lookup f' = some (r', now) → f = f'
  apart : ∀ f r now k app, s.answers.lookup f = some (r, now) →
    s.retirements.lookup k ≠ some (app, now)

theorem inv_initial : Inv {} where
  flights f flight h := absurd h (by simp)
  updated i := Nat.le_refl 0
  retirements r app now h := absurd h (by simp)
  answers f r now h := absurd h (by simp)
  pending f r now h := absurd h (by simp)
  distinct f f' r r' now h := absurd h (by simp)
  apart f r now k app h := absurd h (by simp)

section Preservation

variable {s t : State} {l : Label} {e : Event}

/-- Flights keep the applications of their intents when the owners stay and no flight is new. -/
theorem flights_of_owners {b : Board} {flights : Table Nat Flight}
    (h : ∀ f flight, s.journal.flights.lookup f = some flight →
      (s.board.intents.lookup flight.intent).map Intent.app = some flight.row.app)
    (howners : SameOwners s.board b)
    (hflights : ∀ f flight, flights.lookup f = some flight →
      s.journal.flights.lookup f = some flight) :
    ∀ f flight, flights.lookup f = some flight →
      (b.intents.lookup flight.intent).map Intent.app = some flight.row.app := by
  intro f flight hflight
  rw [howners flight.intent]
  exact h f flight (hflights f flight hflight)

theorem lookup_of_erase {κ ρ : Type} [DecidableEq κ] {t : Table κ ρ} {k k' : κ} {r : ρ}
    (h : (t.erase k).lookup k' = some r) : k' ≠ k ∧ t.lookup k' = some r := by
  rw [Table.lookup_erase_ite] at h
  split at h
  · cases h
  · exact ⟨‹_›, h⟩

/-- What `retire_app` writes into `updated` is its time, or what was there. -/
theorem retired_cases (b : Board) (app : AppId) (now : Nat) (updated : IntentId → Nat)
    (i : IntentId) :
    retired b app now updated i = now ∨ retired b app now updated i = updated i := by
  unfold retired
  split
  · exact .inl rfl
  · exact .inr rfl

theorem update_cases (updated : IntentId → Nat) (i k : IntentId) (now : Nat) :
    Function.update updated i now k = now ∨ Function.update updated i now k = updated k := by
  by_cases h : k = i
  · subst h
    exact .inl (Function.update_self ..)
  · exact .inr (Function.update_of_ne h ..)

/-- Recording an outcome: `updated` gets its time in some rows, and that is no longer pending. -/
theorem inv_answer (hinv : Inv s) {f now : Nat} (flight : Flight) {r : Option Reply}
    (hanswer : s.answers.lookup f = some (r, now)) {updated : IntentId → Nat}
    (hupdated : ∀ k, updated k = now ∨ updated k = s.updated k)
    (observations : Table AppId Observation) :
    Inv { s with
      journal := ⟨s.board.answer flight r, s.journal.flights.erase f⟩
      answers := s.answers.erase f, updated := updated, observations := observations } := by
  have hnow := hinv.answers f r now hanswer
  refine ⟨?_, fun k => ?_, hinv.retirements, fun f' r' n ha => ?_, fun f' r' n ha k => ?_,
    fun f₁ f₂ r₁ r₂ n h₁ h₂ => ?_, fun f' r' n k app ha => ?_⟩
  · exact flights_of_owners hinv.flights (sameOwners_answer flight r)
      fun f' flight' hflight' => (lookup_of_erase hflight').2
  · have hk := hinv.updated k
    show updated k ≤ s.clock
    rcases hupdated k with heq | heq
    all_goals omega
  · exact hinv.answers f' r' n (lookup_of_erase ha).2
  · obtain ⟨hne, hold⟩ := lookup_of_erase ha
    have hk := hinv.pending f' r' n hold k
    show updated k ≠ n
    rcases hupdated k with heq | heq
    · rintro rfl
      refine hne (hinv.distinct f' f r' r now ?_ hanswer)
      rw [← heq]
      exact hold
    · rw [heq]
      exact hk
  · exact hinv.distinct f₁ f₂ r₁ r₂ n (lookup_of_erase h₁).2 (lookup_of_erase h₂).2
  · exact hinv.apart f' r' n k app (lookup_of_erase ha).2

/-- Reading the clock, and what probes write. -/
theorem inv_clock (hinv : Inv s) {now : Nat} (hnow : s.clock < now)
    {observations : Table AppId Observation} {probes : Table Nat Probe} :
    Inv { s with observations := observations, probes := probes, clock := now } where
  flights := hinv.flights
  updated k := (hinv.updated k).trans hnow.le
  retirements r app n hr := (hinv.retirements r app n hr).trans hnow.le
  answers f r n ha := ⟨(hinv.answers f r n ha).1, (hinv.answers f r n ha).2.trans hnow.le⟩
  pending := hinv.pending
  distinct := hinv.distinct
  apart := hinv.apart

theorem inv_step (hinv : Inv s) (h : Steps s l e t) : Inv t := by
  cases h with
  | @admission l now i app j hl hnow hj =>
    obtain ⟨hadmits, hflights⟩ := next_admitted hl hj
    refine ⟨fun f flight hflight => ?_, fun k => ?_, fun r a n hr => ?_, fun f r n ha => ?_,
      fun f r n ha k => ?_, hinv.distinct, hinv.apart⟩
    · have hold := hinv.flights f flight (hflights ▸ hflight)
      rw [← hold]
      refine hadmits.others _ fun heq => ?_
      rw [heq, show s.board.intents.lookup i = none from hadmits.fresh] at hold
      cases hold
    · have hk := hinv.updated k
      rcases update_cases s.updated i k now with heq | heq
      all_goals
        show Function.update s.updated i now k ≤ now
        omega
    · exact (hinv.retirements r a n hr).trans hnow.le
    · have hn := hinv.answers f r n ha
      exact ⟨hn.1, hn.2.trans hnow.le⟩
    · have hn := hinv.answers f r n ha
      have hk := hinv.pending f r n ha k
      rcases update_cases s.updated i k now with heq | heq
      all_goals
        show Function.update s.updated i now k ≠ n
        omega
  | @passing l j hl hj =>
    obtain ⟨howners, -, hflights⟩ := next_passes hl hj
    refine ⟨fun f flight hflight => ?_, hinv.updated, hinv.retirements, hinv.answers, hinv.pending,
      hinv.distinct, hinv.apart⟩
    show (j.board.intents.lookup flight.intent).map Intent.app = some flight.row.app
    rw [howners flight.intent]
    rcases hflights f flight hflight with hold | hnew
    · exact hinv.flights f flight hold
    · rw [hnew, Option.map_some]
  | @reply f now r hnone hnow =>
    refine ⟨hinv.flights, fun k => (hinv.updated k).trans hnow.le,
      fun k a n hk => (hinv.retirements k a n hk).trans hnow.le, fun f' r' n ha => ?_,
      fun f' r' n ha k => ?_, fun f₁ f₂ r₁ r₂ n h₁ h₂ => ?_, fun f' r' n k a ha hk => ?_⟩
    · rw [Table.lookup_insert_ite] at ha
      split at ha
      · obtain ⟨-, rfl⟩ := Prod.mk.inj (Option.some.inj ha)
        exact ⟨by omega, Nat.le_refl _⟩
      · have hn := hinv.answers f' r' n ha
        exact ⟨hn.1, hn.2.trans hnow.le⟩
    · have hk := hinv.updated k
      rw [Table.lookup_insert_ite] at ha
      split at ha
      · obtain ⟨-, rfl⟩ := Prod.mk.inj (Option.some.inj ha)
        show s.updated k ≠ now
        omega
      · exact hinv.pending f' r' n ha k
    · rw [Table.lookup_insert_ite] at h₁ h₂
      split at h₁
      next heq₁ =>
        obtain ⟨-, rfl⟩ := Prod.mk.inj (Option.some.inj h₁)
        split at h₂
        next heq₂ => rw [heq₁, heq₂]
        next =>
          have hn := (hinv.answers f₂ r₂ now h₂).2
          omega
      next =>
        split at h₂
        next =>
          obtain ⟨-, rfl⟩ := Prod.mk.inj (Option.some.inj h₂)
          have hn := (hinv.answers f₁ r₁ now h₁).2
          omega
        next => exact hinv.distinct f₁ f₂ r₁ r₂ n h₁ h₂
    · rw [Table.lookup_insert_ite] at ha
      split at ha
      · obtain ⟨-, rfl⟩ := Prod.mk.inj (Option.some.inj ha)
        have hn := hinv.retirements k a now hk
        omega
      · exact hinv.apart f' r' n k a ha hk
  | @answer f now flight r hflight hanswer hretires =>
    exact inv_answer hinv flight hanswer (fun k => update_cases s.updated flight.intent k now) _
  | @answerRetires f now flight r app hflight hanswer happ =>
    refine inv_answer hinv flight hanswer (fun k => ?_) _
    rcases retired_cases (s.board.writeAnswer flight r) app now
      (Function.update s.updated flight.intent now) k with heq | heq
    · exact .inl heq
    · exact (update_cases s.updated flight.intent k now).imp heq.trans heq.trans
  | @missing r now app hnone hnow =>
    refine ⟨hinv.flights, fun k => (hinv.updated k).trans hnow.le, fun r' a n hr => ?_,
      fun f r' n ha => ?_, hinv.pending, hinv.distinct, fun f r' n k a ha hk => ?_⟩
    · rw [Table.lookup_insert_ite] at hr
      split at hr
      · obtain ⟨-, rfl⟩ := Prod.mk.inj (Option.some.inj hr)
        exact Nat.le_refl _
      · exact (hinv.retirements r' a n hr).trans hnow.le
    · have hn := hinv.answers f r' n ha
      exact ⟨hn.1, hn.2.trans hnow.le⟩
    · rw [Table.lookup_insert_ite] at hk
      split at hk
      · obtain ⟨-, rfl⟩ := Prod.mk.inj (Option.some.inj hk)
        have hn := (hinv.answers f r' now ha).2
        omega
      · exact hinv.apart f r' n k a ha hk
  | @retire r now app hr hboard =>
    refine ⟨?_, fun k => ?_, fun r' a n hr' => ?_, hinv.answers, fun f r' n ha k => ?_,
      hinv.distinct, fun f r' n k a ha hk => ?_⟩
    · exact flights_of_owners hinv.flights sameOwners_retireApp fun f flight hflight => hflight
    · have hk := hinv.updated k
      have hn := hinv.retirements r app now hr
      show retired s.board app now s.updated k ≤ s.clock
      rcases retired_cases s.board app now s.updated k with heq | heq
      all_goals omega
    · exact hinv.retirements r' a n (lookup_of_erase hr').2
    · show retired s.board app now s.updated k ≠ n
      rcases retired_cases s.board app now s.updated k with heq | heq
      · rintro rfl
        refine hinv.apart f r' now r app ?_ hr
        rw [← heq]
        exact ha
      · rw [heq]
        exact hinv.pending f r' n ha k
    · exact hinv.apart f r' n k a ha (lookup_of_erase hk).2
  | @retireLate r now app hr =>
    exact ⟨hinv.flights, hinv.updated,
      fun r' a n hr' => hinv.retirements r' a n (lookup_of_erase hr').2, hinv.answers, hinv.pending,
      hinv.distinct, fun f r' n k a ha hk => hinv.apart f r' n k a ha (lookup_of_erase hk).2⟩
  | @start p cacheSeconds now app row cached hnone hnow =>
    exact inv_clock hinv hnow
  | @write p observedAt now probe answer deployed body hprobe hnow hunchanged =>
    exact inv_clock hinv hnow
  | @drop p observedAt now answer deployed hnow =>
    exact inv_clock hinv hnow

end Preservation

end Observations
end Broker
end OpenstackPlatform
