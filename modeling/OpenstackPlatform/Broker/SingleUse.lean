import OpenstackPlatform.Broker.Commits

/-!
# Single use of links and enrollments

What a run has spent is counted in its history: how often a link was enrolled with, how often an
enrollment was completed, and how many wrong codes each of them has met.  `Portal.Spends` says what
one step does to these counts and to the rows that bound them; `Portal.Spent` is the invariant.
-/

namespace OpenstackPlatform
namespace Broker

open Library

/-! ## Counting wrong codes -/

/-- A step evaluates at most one wrong code, only against a row with fewer than five, and the row
counts it; a new row has a new name. -/
def Tries (wrong : Nat → Nat) (row row' : Nat → Option Nat) (drawn : Nat → Bool) : Prop :=
  ∀ n, wrong n ≤ 1 ∧ (0 < wrong n → ∃ k, row n = some k ∧ k < 5) ∧
    ∀ k', row' n = some k' → (∃ k, row n = some k ∧ k' = k + wrong n) ∨ (drawn n = false ∧ k' = 0)

/-- What has been counted: at most five wrong codes, and as many as the row says while it is
there. -/
def Bounded (count : Nat → Nat) (row : Nat → Option Nat) (drawn : Nat → Bool) : Prop :=
  ∀ n, count n ≤ 5 ∧ (0 < count n → drawn n = true) ∧ ∀ k, row n = some k → k = count n

variable {row row' : Nat → Option Nat} {drawn : Nat → Bool}

theorem Bounded.next {count wrong : Nat → Nat} {drawn' : Nat → Bool}
    (hinv : Bounded count row drawn) (hrows : ∀ n k, row n = some k → drawn n = true)
    (hdrawn : ∀ n, drawn n = true → drawn' n = true) (hnew : Tries wrong row row' drawn) :
    Bounded (fun n => count n + wrong n) row' drawn' := by
  intro n
  obtain ⟨hfive, hcounted, hrow⟩ := hinv n
  obtain ⟨hone, hwrong, hrow'⟩ := hnew n
  have hsum : count n + wrong n ≤ 5 := by
    rcases Nat.eq_zero_or_pos (wrong n) with hzero | hpos
    · omega
    · obtain ⟨k, hk, hlt⟩ := hwrong hpos
      have heq := hrow k hk
      omega
  refine ⟨hsum, fun hpos => ?_, fun k' hk' => ?_⟩
  · have hpos : 0 < count n + wrong n := hpos
    rcases Nat.eq_zero_or_pos (wrong n) with hzero | hwpos
    · exact hdrawn n (hcounted (by omega))
    · obtain ⟨k, hk, -⟩ := hwrong hwpos
      exact hdrawn n (hrows n k hk)
  · rcases hrow' k' hk' with ⟨k, hk, rfl⟩ | ⟨hfresh, rfl⟩
    · rw [hrow k hk]
    · -- A name that was never drawn has neither a row nor a count.
      have hcount : count n = 0 := by
        by_contra hne
        rw [hcounted (by omega)] at hfresh
        cases hfresh
      have hnone : wrong n = 0 := by
        by_contra hne
        obtain ⟨k, hk, -⟩ := hwrong (by omega)
        rw [hrows n k hk] at hfresh
        cases hfresh
      show 0 = count n + wrong n
      omega

/-- No wrong code is evaluated. -/
theorem tries_none {wrong : Nat → Nat} (hwrong : ∀ n, wrong n = 0)
    (hrow : ∀ n k', row' n = some k' → row n = some k' ∨ (drawn n = false ∧ k' = 0)) :
    Tries wrong row row' drawn := by
  intro n
  refine ⟨by rw [hwrong n]; omega, fun hpos => absurd hpos (by rw [hwrong n]; omega),
    fun k' hk' => ?_⟩
  rcases hrow n k' hk' with hold | hfresh
  · exact .inl ⟨k', hold, by rw [hwrong n]; rfl⟩
  · exact .inr hfresh

/-- One wrong code is evaluated, against one row. -/
theorem tries_one {wrong : Nat → Nat} {m k : Nat} (hwrong : ∀ n, wrong n = if n = m then 1 else 0)
    (hm : row m = some k) (hlt : k < 5)
    (hrow : ∀ n, row' n = if n = m then some (k + 1) else row n) :
    Tries wrong row row' drawn := by
  intro n
  rw [hwrong n, hrow n]
  by_cases hn : n = m
  · subst hn
    rw [if_pos rfl, if_pos rfl]
    refine ⟨le_refl 1, fun _ => ⟨k, hm, hlt⟩, fun k' hk' => ?_⟩
    exact .inl ⟨k, hm, (Option.some.inj hk').symm⟩
  · rw [if_neg hn, if_neg hn]
    exact ⟨by omega, fun hpos => absurd hpos (by omega), fun k' hk' => .inl ⟨k', hk', rfl⟩⟩

/-! ## What a step spends -/

/-- Whether an event enrolls with a link. -/
def Event.enrolls (id : TokenId) : Event → Bool
  | enrolled i _ => i == id
  | _ => false

/-- Events that spend something of a link or an enrollment. -/
def Event.spends : Event → Bool
  | enrolled _ _ | completed _ | wrongLinkCode _ | wrongEnrollmentCode _ => true
  | _ => false

/-- The transactions that read or write links and enrollments. -/
def Label.touchesLinks : Label → Bool
  | issueBootstrap _ _ | openEnrollment _ _ _ _ | commitEnrollment _ _ _ | finish _ _ _ _ _ _ _ _
  | create _ _ _ _ _ | change _ _ _ _ _ => true
  | _ => false

namespace Portal

/-- The wrong codes that the row of a link counts. -/
def linkFailures (p : Portal) (id : TokenId) : Option Nat :=
  (p.db.accountTokens.lookup id).map AccountToken.failures

/-- The wrong codes that the row of an enrollment counts. -/
def enrollmentFailures (p : Portal) (handle : Handle) : Option Nat :=
  (p.db.enrollments.lookup handle).map Enrollment.failures

/-- What one step spends. -/
structure Spends (p p' : Portal) (es : List Event) : Prop where
  used : ∀ id ∈ p.db.usedTokens, id ∈ p'.db.usedTokens
  enrolled : ∀ id, es.countP (Event.enrolls id) ≤ 1 ∧ (0 < es.countP (Event.enrolls id) →
    id ∉ p.db.usedTokens ∧ id ∈ p'.db.usedTokens)
  link : Tries (fun id => es.count (.wrongLinkCode id)) p.linkFailures p'.linkFailures p.drawn
  completed : ∀ handle, es.count (.completed handle) ≤ 1 ∧ (0 < es.count (.completed handle) →
    p.enrollmentFailures handle ≠ none ∧ p'.enrollmentFailures handle = none)
  enrollment : Tries (fun handle => es.count (.wrongEnrollmentCode handle)) p.enrollmentFailures
    p'.enrollmentFailures p.drawn

/-- **What has been spent along every run**, against the rows that are there. -/
structure Spent (es : List Event) (p : Portal) : Prop where
  enrolled : ∀ id, es.countP (Event.enrolls id) ≤ 1 ∧
    (0 < es.countP (Event.enrolls id) → id ∈ p.db.usedTokens)
  link : Bounded (fun id => es.count (.wrongLinkCode id)) p.linkFailures p.drawn
  completed : ∀ handle, es.count (.completed handle) ≤ 1 ∧
    (0 < es.count (.completed handle) →
      p.drawn handle = true ∧ p.enrollmentFailures handle = none)
  enrollment : Bounded (fun handle => es.count (.wrongEnrollmentCode handle)) p.enrollmentFailures
    p.drawn

section Step

variable {p p' q : Portal} {es past : List Event} {draws : List Nat}

/-- The row of a link is of a name that was drawn. -/
theorem drawn_of_link (h : Revocation past p) {id : TokenId} {k : Nat}
    (hk : p.linkFailures id = some k) : p.drawn id = true := by
  obtain ⟨row, hrow, -⟩ := Option.map_eq_some_iff.mp hk
  refine h.keys (.link id) (row.user, row.generation) ?_
  show (p.db.accountTokens.lookup id).map _ = _
  rw [hrow, Option.map_some]

theorem drawn_of_enrollment (h : Revocation past p) {handle : Handle} {k : Nat}
    (hk : p.enrollmentFailures handle = some k) : p.drawn handle = true := by
  obtain ⟨row, hrow, -⟩ := Option.map_eq_some_iff.mp hk
  refine h.keys (.enrollment handle) (row.user, row.generation) ?_
  show (p.db.enrollments.lookup handle).map _ = _
  rw [hrow, Option.map_some]

/-- **One step keeps the counts.** -/
theorem Spent.next (hinv : Spent past p) (hrevocation : Revocation past p)
    (hdrawn : ∀ n, p.drawn n = true → p'.drawn n = true) (hnew : Spends p p' es) :
    Spent (past ++ es) p' where
  enrolled id := by
    obtain ⟨hold, hused⟩ := hinv.enrolled id
    obtain ⟨hone, hspent⟩ := hnew.enrolled id
    rw [List.countP_append]
    constructor
    · by_contra hlt
      exact (hspent (by omega)).1 (hused (by omega))
    · intro hpos
      rcases Nat.eq_zero_or_pos (es.countP (Event.enrolls id)) with hzero | hspends
      · exact hnew.used id (hused (by omega))
      · exact (hspent hspends).2
  link := by
    simp only [List.count_append]
    exact hinv.link.next (fun n k => drawn_of_link hrevocation) hdrawn hnew.link
  completed handle := by
    obtain ⟨hold, hgone⟩ := hinv.completed handle
    obtain ⟨hone, hspent⟩ := hnew.completed handle
    rw [List.count_append]
    constructor
    · by_contra hlt
      exact (hspent (by omega)).1 (hgone (by omega)).2
    · intro hpos
      rcases Nat.eq_zero_or_pos (es.count (Event.completed handle)) with hzero | hspends
      · obtain ⟨hd, hnone⟩ := hgone (by omega)
        refine ⟨hdrawn handle hd, ?_⟩
        cases hrow : p'.enrollmentFailures handle with
        | none => rfl
        | some k =>
          rcases (hnew.enrollment handle).2.2 k hrow with ⟨k', hk', -⟩ | ⟨hfresh, -⟩
          · rw [hnone] at hk'
            cases hk'
          · rw [hd] at hfresh
            cases hfresh
      · obtain ⟨hsome, hnone⟩ := hspent hspends
        obtain ⟨k, hk⟩ := Option.ne_none_iff_exists'.mp hsome
        exact ⟨hdrawn handle (drawn_of_enrollment hrevocation hk), hnone⟩
  enrollment := by
    simp only [List.count_append]
    exact hinv.enrollment.next (fun n k => drawn_of_enrollment hrevocation) hdrawn hnew.enrollment

/-! ## The transactions -/

theorem countP_enrolls_of_quiet (h : ∀ e ∈ es, e.spends = false) (id : TokenId) :
    es.countP (Event.enrolls id) = 0 := by
  rw [List.countP_eq_zero]
  intro e he henrolls
  have hquiet := h e he
  cases e <;> simp_all [Event.enrolls, Event.spends]

theorem count_of_quiet (h : ∀ e ∈ es, e.spends = false) {event : Event}
    (hevent : event.spends = true) : es.count event = 0 := by
  rw [List.count_eq_zero]
  intro hmem
  rw [h event hmem] at hevent
  cases hevent

/-- Where one event of a step spends something. -/
theorem count_middle {quiet rest : List Event} (h : ∀ e ∈ quiet, e.spends = false)
    (h' : ∀ e ∈ rest, e.spends = false) (event : Event) {other : Event}
    (hother : other.spends = true) :
    (quiet ++ event :: rest).count other = if event = other then 1 else 0 := by
  rw [List.count_append, count_of_quiet h hother, List.count_cons, count_of_quiet h' hother]
  simp only [beq_iff_eq, Nat.zero_add]

theorem countP_enrolls_middle {quiet rest : List Event} (h : ∀ e ∈ quiet, e.spends = false)
    (h' : ∀ e ∈ rest, e.spends = false) (event : Event) (id : TokenId) :
    (quiet ++ event :: rest).countP (Event.enrolls id) = if event.enrolls id then 1 else 0 := by
  rw [List.countP_append, countP_enrolls_of_quiet h, List.countP_cons, countP_enrolls_of_quiet h']
  simp only [Nat.zero_add]

/-- A step whose events spend nothing: rows are kept, lost or new. -/
theorem spends_nothing (hes : ∀ e ∈ es, e.spends = false)
    (hused : p'.db.usedTokens = p.db.usedTokens)
    (hlinks : ∀ id k, p'.linkFailures id = some k →
      p.linkFailures id = some k ∨ (p.drawn id = false ∧ k = 0))
    (henrollments : ∀ handle k, p'.enrollmentFailures handle = some k →
      p.enrollmentFailures handle = some k ∨ (p.drawn handle = false ∧ k = 0)) :
    Spends p p' es where
  used id hid := hused ▸ hid
  enrolled id := by
    rw [countP_enrolls_of_quiet hes]
    exact ⟨by omega, fun hpos => absurd hpos (by omega)⟩
  link := tries_none (fun id => count_of_quiet hes rfl) hlinks
  completed handle := by
    rw [count_of_quiet hes rfl]
    exact ⟨by omega, fun hpos => absurd hpos (by omega)⟩
  enrollment := tries_none (fun handle => count_of_quiet hes rfl) henrollments

/-- A step that leaves links and enrollments alone. -/
theorem spends_untouched (hes : ∀ e ∈ es, e.spends = false)
    (hused : p'.db.usedTokens = p.db.usedTokens)
    (hlinks : p'.db.accountTokens = p.db.accountTokens)
    (henrollments : p'.db.enrollments = p.db.enrollments) : Spends p p' es := by
  refine spends_nothing hes hused ?_ ?_
  · intro id k hk
    unfold linkFailures at hk ⊢
    rw [hlinks] at hk
    exact .inl hk
  · intro handle k hk
    unfold enrollmentFailures at hk ⊢
    rw [henrollments] at hk
    exact .inl hk

theorem quiet_recognized (device : Option Device) (u : UserId) (user : User) (now : Nat) :
    ∀ e ∈ p.recognized device u user now, e.spends = false := by
  intro e he
  unfold recognized at he
  split at he
  · split at he
    · obtain rfl := List.mem_singleton.mp he
      rfl
    · cases he
  · cases he

theorem quiet_recognizedAccount (device : Option Device) (username : String) (now : Nat) :
    ∀ e ∈ p.recognizedAccount device username now, e.spends = false := by
  intro e he
  unfold recognizedAccount at he
  split at he
  · exact quiet_recognized device _ _ now e he
  · cases he

theorem quiet_acceptedLink (resolved : Resolved) (id : TokenId) :
    ∀ e ∈ acceptedLink resolved id, e.spends = false := by
  intro e he
  unfold acceptedLink at he
  split at he
  · obtain rfl := List.mem_singleton.mp he
    rfl
  · cases he

variable {crypto : Crypto} {now : Nat}

theorem spends_openEnrollment {r : Nat} {body : EnrollBody} {binder : Nat} (hdb : p'.db = q.db)
    (h : p.openEnrollment crypto r body binder now = .ok (q, es)) : Spends p p' es := by
  simp only [openEnrollment, Broker.openEnrollment, bind_eq_ok, found_eq_ok, require_eq_ok] at h
  obtain ⟨resolved, hresolved, ⟨db, enrolling⟩, ⟨resolved', hresolved', -, -, -, -, hopen⟩, h⟩ := h
  cases hresolved.symm.trans hresolved'
  have hquiet := quiet_acceptedLink resolved body.link.id
  split at hopen
  next hproves =>
    split at hopen
    next =>
      cases hopen
      cases h
      obtain ⟨row, hrow, hfailures⟩ : ∃ row, p.db.accountTokens.lookup body.link.id = some row ∧
          row.failures < 5 := by
        rcases (Database.resolveToken_eq_some hresolved).2 with
          ⟨row, user, hrow, -, -, hfailures, -, -⟩ | ⟨-, rfl⟩
        · exact ⟨row, hrow, hfailures⟩
        · exact absurd hproves (by simp [provesFactor])
      have hwrong : ∀ n, (acceptedLink resolved body.link.id ++
          [Event.wrongLinkCode body.link.id]).count (.wrongLinkCode n) =
            if n = body.link.id then 1 else 0 := by
        intro n
        rw [count_middle hquiet (by simp) _ rfl]
        simp only [Event.wrongLinkCode.injEq, eq_comm]
      refine ⟨fun id hid => ?_, fun id => ?_, tries_one (k := row.failures) hwrong ?_ hfailures
        fun n => ?_, fun handle => ?_, tries_none (fun handle => ?_) fun handle k hk => .inl ?_⟩
      · rw [hdb]
        exact hid
      · rw [countP_enrolls_middle hquiet (by simp)]
        exact ⟨by simp [Event.enrolls], fun hpos => absurd hpos (by simp [Event.enrolls])⟩
      · rw [linkFailures, hrow, Option.map_some]
      · unfold linkFailures
        rw [hdb, Table.lookup_modify]
        split
        next hn =>
          rw [hn, hrow]
          simp only [Option.map_some]
          congr 1
          omega
        next => rfl
      · rw [count_middle hquiet (by simp) _ rfl]
        exact ⟨by simp, fun hpos => absurd hpos (by simp)⟩
      · rw [count_middle hquiet (by simp) _ rfl]
        simp
      · rw [enrollmentFailures, hdb] at hk
        exact hk
    next counter _ =>
      cases hopen
      cases h
      cases huser : resolved.user with
      | none =>
        rw [huser] at hdb
        exact spends_untouched hquiet (by rw [hdb]; rfl) (by rw [hdb]; rfl) (by rw [hdb]; rfl)
      | some v =>
        rw [huser] at hdb
        exact spends_untouched hquiet (by rw [hdb]; rfl) (by rw [hdb]; rfl) (by rw [hdb]; rfl)
  next =>
    cases hopen
    cases h
    exact spends_untouched hquiet (by rw [hdb]; rfl) (by rw [hdb]; rfl) (by rw [hdb]; rfl)

theorem spends_commitEnrollment {r : Nat} {draw : EnrollDraw} (hfresh : p.drawn draw.handle = false)
    (hdb : p'.db = q.db) (h : p.commitEnrollment r draw now = .ok (q, es)) : Spends p p' es := by
  unfold commitEnrollment at h
  split at h
  next e _ =>
    simp only [bind_eq_ok, found_eq_ok] at h
    obtain ⟨resolved, hresolved, ⟨mid, u, user⟩, -, db, hcommit, h⟩ := h
    cases h
    obtain ⟨_, _, _, _, -, -, -, hused, htokens, henrollments, -⟩ :=
      Database.outcome_commitEnrollment hcommit
    have hquiet := quiet_acceptedLink resolved e.link.id
    have hissued : ∀ f ∈ [Event.issued u (.enrollment draw.handle)], f.spends = false := by
      intro f hf
      obtain rfl := List.mem_singleton.mp hf
      rfl
    refine ⟨fun id hid => ?_, fun id => ⟨?_, fun hpos => ?_⟩, tries_none (fun id => ?_) ?_,
      fun handle => ?_, tries_none (fun handle => ?_) ?_⟩
    · rw [hdb]
      show id ∈ db.usedTokens
      rw [hused]
      exact List.mem_cons_of_mem _ hid
    · rw [countP_enrolls_middle hquiet hissued]
      split
      all_goals omega
    · rw [countP_enrolls_middle hquiet hissued] at hpos
      split at hpos
      next henrolls =>
        simp only [Event.enrolls, beq_iff_eq] at henrolls
        subst henrolls
        refine ⟨(Database.resolveToken_eq_some hresolved).1, ?_⟩
        rw [hdb]
        show e.link.id ∈ db.usedTokens
        rw [hused]
        exact List.mem_cons_self
      next => exact absurd hpos (by omega)
    · rw [count_middle hquiet hissued _ rfl]
      simp
    · intro id k hk
      obtain ⟨row, hrow, rfl⟩ := Option.map_eq_some_iff.mp hk
      rw [hdb] at hrow
      have hrow : db.accountTokens.lookup id = some row := hrow
      rw [htokens] at hrow
      by_cases hid : id = e.link.id
      · rw [hid, AList.lookup_erase] at hrow
        cases hrow
      · rw [AList.lookup_erase_ne hid] at hrow
        exact .inl (Option.map_eq_some_iff.mpr ⟨row, hrow, rfl⟩)
    · rw [count_middle hquiet hissued _ rfl]
      exact ⟨by simp, fun hpos => absurd hpos (by simp)⟩
    · rw [count_middle hquiet hissued _ rfl]
      simp
    · intro handle k hk
      obtain ⟨row, hrow, rfl⟩ := Option.map_eq_some_iff.mp hk
      rw [hdb] at hrow
      have hrow : db.enrollments.lookup handle = some row := hrow
      rw [henrollments, Table.lookup_insert_ite] at hrow
      split at hrow
      next heq =>
        cases hrow
        exact .inr ⟨heq ▸ hfresh, rfl⟩
      next =>
        exact .inl (Option.map_eq_some_iff.mpr ⟨row, (Table.lookup_deleteWhere.mp hrow).1, rfl⟩)
  next => cases h

variable {db : Database}

/-- A completion: the enrollment is spent, and rows of its account are lost. -/
theorem spends_completed {handle : Handle} {row : Enrollment} {rest : List Event} (hdb : p'.db = db)
    (hrow : p.db.enrollments.lookup handle = some row)
    (henrollments : db.enrollments = p.db.enrollments.deleteWhere fun _ r => r.user = row.user)
    (htokens : db.accountTokens = p.db.accountTokens.deleteWhere fun _ r => r.user = row.user)
    (hused : db.usedTokens = p.db.usedTokens) (hrest : ∀ e ∈ rest, e.spends = false) :
    Spends p p' (.accepted row.user (.enrollment handle) :: .completed handle :: rest) := by
  have hquiet : ∀ e ∈ [Event.accepted row.user (.enrollment handle)], e.spends = false := by
    intro e he
    obtain rfl := List.mem_singleton.mp he
    rfl
  have hcount : ∀ other : Event, other.spends = true →
      (Event.accepted row.user (.enrollment handle) :: .completed handle :: rest).count other =
        if Event.completed handle = other then 1 else 0 :=
    fun other hother => count_middle hquiet hrest (.completed handle) hother
  have henrolls : ∀ id, (Event.accepted row.user (.enrollment handle) :: .completed handle ::
      rest).countP (Event.enrolls id) = 0 :=
    fun id => (countP_enrolls_middle hquiet hrest (.completed handle) id).trans rfl
  refine ⟨fun id hid => ?_, fun id => ?_, tries_none (fun id => ?_) ?_, fun other => ⟨?_, ?_⟩,
    tries_none (fun other => ?_) ?_⟩
  · rw [hdb, hused]
    exact hid
  · rw [henrolls]
    exact ⟨by omega, fun hpos => absurd hpos (by omega)⟩
  · rw [hcount _ rfl]
    simp
  · intro id k hk
    obtain ⟨token, htoken, rfl⟩ := Option.map_eq_some_iff.mp hk
    rw [hdb, htokens] at htoken
    exact .inl (Option.map_eq_some_iff.mpr ⟨token, (Table.lookup_deleteWhere.mp htoken).1, rfl⟩)
  · rw [hcount _ rfl]
    split
    all_goals omega
  · intro hpos
    rw [hcount _ rfl] at hpos
    split at hpos
    next heq =>
      obtain rfl := Event.completed.inj heq
      constructor
      · rw [enrollmentFailures, hrow]
        simp
      · rw [enrollmentFailures, hdb, henrollments, Option.map_eq_none_iff]
        cases hgone : (p.db.enrollments.deleteWhere fun _ r => r.user = row.user).lookup handle with
        | none => rfl
        | some row' =>
          obtain ⟨hrow', hne⟩ := Table.lookup_deleteWhere.mp hgone
          cases hrow.symm.trans hrow'
          exact absurd hne (by simp)
    next => exact absurd hpos (by omega)
  · rw [hcount _ rfl]
    simp
  · intro other k hk
    obtain ⟨row', hrow', rfl⟩ := Option.map_eq_some_iff.mp hk
    rw [hdb, henrollments] at hrow'
    exact .inl (Option.map_eq_some_iff.mpr ⟨row', (Table.lookup_deleteWhere.mp hrow').1, rfl⟩)

variable {settings : Settings}

theorem spends_finish {handle : Handle} {binder : Nat} {totp : Option String} {session : SessionId}
    {old : Option SessionId} {device : Option Device} {fresh : Nat} (hdb : p'.db = q.db)
    (h : p.finish crypto settings handle binder totp session old device fresh now = .ok (q, es)) :
    Spends p p' es := by
  simp only [finish, bind_eq_ok, found_eq_ok] at h
  obtain ⟨row, hrow, ⟨db, finished⟩, hfinish, h⟩ := h
  obtain ⟨row', user, hrow', -, -, hfailures, hout⟩ := Database.outcome_finish hfinish
  cases hrow.symm.trans hrow'
  cases finished with
  | wrongCode =>
    cases h
    obtain ⟨-, htokens, henrollments, hused⟩ := hout
    have hquiet : ∀ e ∈ [Event.accepted row.user (.enrollment handle)], e.spends = false := by
      intro e he
      obtain rfl := List.mem_singleton.mp he
      rfl
    have hcount : ∀ other : Event, other.spends = true →
        [Event.accepted row.user (.enrollment handle), .wrongEnrollmentCode handle].count other =
          if Event.wrongEnrollmentCode handle = other then 1 else 0 :=
      fun other hother => count_middle hquiet (by simp) (.wrongEnrollmentCode handle) hother
    refine ⟨fun id hid => ?_, fun id => ?_, tries_none (fun id => ?_) fun id k hk => .inl ?_,
      fun other => ?_,
      tries_one (m := handle) (k := row.failures) (fun other => ?_) ?_ hfailures fun other => ?_⟩
    · rw [hdb]
      exact hused ▸ hid
    · exact ⟨by simp [Event.enrolls], fun hpos => absurd hpos (by simp [Event.enrolls])⟩
    · rw [hcount _ rfl]
      simp
    · rw [linkFailures, hdb] at hk
      exact (congrArg (fun t => (AList.lookup id t).map AccountToken.failures) htokens).symm.trans hk
    · rw [hcount _ rfl]
      exact ⟨by simp, fun hpos => absurd hpos (by simp)⟩
    · rw [hcount _ rfl]
      simp only [Event.wrongEnrollmentCode.injEq, eq_comm]
    · rw [enrollmentFailures, hrow, Option.map_some]
    · unfold enrollmentFailures
      rw [hdb]
      show (db.enrollments.lookup other).map _ = _
      rw [henrollments, Table.lookup_modify]
      split
      next heq =>
        rw [heq, hrow]
        rfl
      next => rfl
  | signIn =>
    cases h
    exact spends_completed hdb hrow hout.2.1 hout.2.2.1 hout.2.2.2
      (by simp [Event.spends] : ∀ e ∈ [Event.changed row.user], e.spends = false)
  | session =>
    simp only [bind_eq_ok, Database.target, found_eq_ok] at h
    obtain ⟨latest, -, h⟩ := h
    cases h
    have hrest : ∀ e ∈ [Event.changed row.user, .issued row.user (.session session),
        .issued row.user (.device (issueDevice p.signed device row.user latest fresh now))],
        e.spends = false := by
      simp [Event.spends]
    exact spends_completed hdb hrow hout.2.2.1 hout.2.2.2.1 hout.2.2.2.2 hrest

/-- Rows that a transaction keeps, loses, or adds for a new link. -/
structure Adds (db db' : Database) (link : TokenId) : Prop where
  used : db'.usedTokens = db.usedTokens
  links : ∀ id row, db'.accountTokens.lookup id = some row →
    db.accountTokens.lookup id = some row ∨ (id = link ∧ row.failures = 0)
  enrollments : ∀ handle row, db'.enrollments.lookup handle = some row →
    db.enrollments.lookup handle = some row

theorem Adds.trans {db' db'' : Database} {link : TokenId} (h : Adds db db' link)
    (h' : Adds db' db'' link) : Adds db db'' link where
  used := h'.used.trans h.used
  links id row hrow := by
    rcases h'.links id row hrow with hold | hnew
    · exact h.links id row hold
    · exact .inr hnew
  enrollments handle row hrow := h.enrollments handle row (h'.enrollments handle row hrow)

theorem adds_addLink (db : Database) (u : UserId) (purpose : Purpose) (link : Link) (now : Nat) :
    Adds db (addLink db u purpose link now) link.id := by
  unfold addLink
  split
  next user huser =>
    refine ⟨rfl, fun id row hrow => ?_, fun handle row hrow => hrow⟩
    rw [Table.lookup_insert_ite] at hrow
    split at hrow
    next heq =>
      cases hrow
      exact .inr ⟨heq, rfl⟩
    next => exact .inl hrow
  next => exact ⟨rfl, fun id row hrow => .inl hrow, fun handle row hrow => hrow⟩

theorem adds_apply (db : Database) (u : UserId) (action : Action) (link : TokenId) :
    Adds db (db.apply u action) link where
  used := rfl
  links _ _ hrow := .inl (Table.lookup_deleteWhere.mp hrow).1
  enrollments _ _ hrow := (Table.lookup_deleteWhere.mp hrow).1

theorem adds_suspend (db : Database) (u : UserId) (waits : Bool) (link : TokenId) :
    Adds db (db.suspend u waits) link := by
  unfold Database.suspend
  split
  · exact ⟨rfl, fun id row hrow => .inl hrow, fun handle row hrow => hrow⟩
  · exact ⟨rfl, fun id row hrow => .inl hrow, fun handle row hrow => hrow⟩

theorem adds_offer (db : Database) (u : UserId) (purpose : Option Purpose) (link : Link)
    (now : Nat) : Adds db (db.offer u purpose link now) link.id := by
  unfold Database.offer
  split
  · exact adds_addLink db u _ link now
  · exact ⟨rfl, fun id row hrow => .inl hrow, fun handle row hrow => hrow⟩

/-- A step that adds at most a new link. -/
theorem spends_adds {link : TokenId} (hdb : p'.db = db) (h : Adds p.db db link)
    (hfresh : p.drawn link = false) (hes : ∀ e ∈ es, e.spends = false) : Spends p p' es := by
  refine spends_nothing hes (by rw [hdb, h.used]) ?_ ?_
  · intro id k hk
    obtain ⟨row, hrow, rfl⟩ := Option.map_eq_some_iff.mp hk
    rw [hdb] at hrow
    rcases h.links id row hrow with hold | ⟨rfl, hzero⟩
    · exact .inl (Option.map_eq_some_iff.mpr ⟨row, hold, rfl⟩)
    · exact .inr ⟨hfresh, hzero⟩
  · intro handle k hk
    obtain ⟨row, hrow, rfl⟩ := Option.map_eq_some_iff.mp hk
    rw [hdb] at hrow
    exact .inl (Option.map_eq_some_iff.mpr ⟨row, h.enrollments handle row hrow, rfl⟩)

theorem spends_create {sid : SessionId} {name : String} {role : Role} {draw : LinkDraw}
    (hfresh : p.drawn draw.link.id = false) (hdb : p'.db = q.db)
    (h : p.effect crypto settings (.create sid name role draw now) = .ok (q, es)) :
    Spends p p' es := by
  simp only [effect, Broker.create, bind_eq_ok, require_eq_ok] at h
  obtain ⟨⟨row, user⟩, -, db, ⟨-, -, -, -, -, -, hcreate⟩, h⟩ := h
  cases hcreate
  cases h
  refine spends_adds hdb (Adds.trans ?_ (adds_addLink _ _ _ draw.link now)) hfresh
    (by simp [Event.spends])
  exact ⟨rfl, fun id row hrow => .inl hrow, fun handle row hrow => hrow⟩

theorem spends_change {sid : SessionId} {u : UserId} {action : Action} {link : Link}
    (hfresh : p.drawn link.id = false) (hdb : p'.db = q.db)
    (h : p.effect crypto settings (.change sid u action link now) = .ok (q, es)) :
    Spends p p' es := by
  simp only [effect, Broker.change, bind_eq_ok, require_eq_ok] at h
  obtain ⟨⟨row, user⟩, -, db, ⟨-, -, -, -, -, -, -, -, -, -, latest, -, hchange⟩, h⟩ := h
  cases hchange
  cases h
  refine spends_adds hdb (((adds_apply p.db u action link.id).trans
    (adds_suspend _ u _ link.id)).trans (adds_offer _ u _ link now)) hfresh ?_
  intro e he
  rcases List.mem_append.mp he with he | he
  · simp only [List.mem_cons, List.not_mem_nil, or_false] at he
    rcases he with rfl | rfl
    all_goals rfl
  · split at he
    · obtain rfl := List.mem_singleton.mp he
      rfl
    · cases he

/-- What a transaction leaves alone that neither reads nor writes links and enrollments; only an
account that is new gets a standing. -/
structure Untouched (p q : Portal) (es : List Event) : Prop where
  quiet : ∀ e ∈ es, e.spends = false
  used : q.db.usedTokens = p.db.usedTokens
  links : q.db.accountTokens = p.db.accountTokens
  enrollments : q.db.enrollments = p.db.enrollments
  standing : ∀ u, q.db.standing u = p.db.standing u ∨ (p.db.standing u).Born (q.db.standing u)
  file : q.file = p.file
  requests : ∀ r e, q.requests r = some (.enrolling e) → p.requests r = some (.enrolling e)

theorem Untouched.spends (h : Untouched p q es) (hdb : p'.db = q.db) : Spends p p' es :=
  spends_untouched h.quiet (by rw [hdb, h.used]) (by rw [hdb, h.links]) (by rw [hdb, h.enrollments])

/-- Leaving something that is not an enrollment under the name of a request. -/
theorem setRequest_enrolling {r s : Nat} {request : Option Request}
    (hnot : ∀ e, request ≠ some (.enrolling e)) {e : Enrolling}
    (h : (q.setRequest r request).requests s = some (.enrolling e)) :
    q.requests s = some (.enrolling e) := by
  have h : (if s = r then request else q.requests s) = some (.enrolling e) := h
  split at h
  · exact absurd h (hnot e)
  · exact h

/-- A transaction that leaves all the tables but those of sessions. -/
theorem untouched_sessions (hes : ∀ e ∈ es, e.spends = false)
    (hdb : ∃ sessions, q.db = { p.db with sessions := sessions }) (hfile : q.file = p.file)
    (hrequests : ∀ r e, q.requests r = some (.enrolling e) → p.requests r = some (.enrolling e)) :
    Untouched p q es := by
  obtain ⟨sessions, hdb⟩ := hdb
  exact ⟨hes, by rw [hdb], by rw [hdb], by rw [hdb], fun u => .inl (by rw [hdb]; rfl), hfile,
    hrequests⟩

theorem untouched_authenticate {sid : SessionId} {kind : Option Role} {touch : Bool}
    (h : authenticate settings p.db sid now kind touch = .ok db) :
    ∃ sessions, db = { p.db with sessions := sessions } := by
  simp only [authenticate, bind_eq_ok] at h
  obtain ⟨-, -, h⟩ := h
  cases h
  split
  · exact ⟨_, rfl⟩
  · exact ⟨p.db.sessions, rfl⟩

theorem untouched_verifySignIn {v : Verifying} {code : Option String} {lockedOut : Bool}
    {verified : Verified} {r : Nat} {session : Option SessionId} (hes : ∀ e ∈ es, e.spends = false)
    (h : verifySignIn crypto p.db v code lockedOut now = .ok (db, verified)) :
    Untouched p ({ p with db := db }.setRequest r (some (.verified verified session))) es := by
  have hrequests : ∀ s e, ({ p with db := db }.setRequest r
      (some (.verified verified session))).requests s = some (.enrolling e) →
      p.requests s = some (.enrolling e) :=
    fun s e he => setRequest_enrolling (fun e => by simp) he
  simp only [verifySignIn, bind_eq_ok, found_eq_ok, require_eq_ok] at h
  obtain ⟨_, -, _, -, ⟨u, latest, account⟩, -, -, -, -, -, h⟩ := h
  split at h
  · simp only [bind_eq_ok, found_eq_ok] at h
    obtain ⟨counter, -, h⟩ := h
    obtain ⟨rfl, -⟩ := Prod.mk.inj (Except.ok.inj h)
    refine ⟨hes, rfl, rfl, rfl, fun w => .inl ?_, rfl, hrequests⟩
    exact Database.standing_modifyAccount p.db u (fun account =>
      { account with lastCounter := counter }) (fun a _ => ⟨rfl, rfl⟩) w
  · simp only [bind_eq_ok, require_eq_ok] at h
    obtain ⟨-, -, h⟩ := h
    obtain ⟨rfl, -⟩ := Prod.mk.inj (Except.ok.inj h)
    exact ⟨hes, rfl, rfl, rfl, fun w => .inl rfl, rfl, hrequests⟩

theorem untouched_rehash (hinv : Revocation past p) {r : Nat} {replacement : String}
    (h : p.rehash r replacement = .ok (q, es)) : Untouched p q es := by
  unfold rehash at h
  split at h
  next v session hrequest =>
    simp only [bind_eq_ok, Broker.rehash, require_eq_ok, found_eq_ok, Bool.and_eq_true,
      beq_iff_eq] at h
    obtain ⟨-, -, db, ⟨⟨u, user, account⟩, haccount, -, ⟨⟨⟨-, hhash⟩, -⟩, -⟩, hrehash⟩, h⟩ := h
    cases hrehash
    cases h
    obtain ⟨huser, hlocal, hname, hlookup⟩ := Database.account_eq_some haccount
    obtain ⟨⟨⟨a, ha, halocal, haname, -⟩, -⟩, -⟩ := hinv.requests r _ hrequest
    obtain rfl := hinv.unique u v.user user a huser ha hlocal halocal (.inl (hname.trans haname.symm))
    refine ⟨by simp [Event.spends], rfl, rfl, rfl, fun w => .inl
      (Database.standing_modifyAccount p.db v.user _ (fun b hb => ?_) w), rfl,
      fun s e he => setRequest_enrolling (fun e => by simp) he⟩
    cases hlookup.symm.trans hb
    exact ⟨by rw [hhash]; rfl, rfl⟩
  next => cases h

theorem untouched_commons {subject : Nat} {username : String} {fresh : UserId} {session : SessionId}
    {old : Option SessionId}
    (h : p.effect crypto settings (.commons subject username fresh session old now) =
      .ok (q, es)) : Untouched p q es := by
  simp only [effect, bind_eq_ok, commonsCallback, require_eq_ok] at h
  obtain ⟨db, ⟨-, -, -, hfresh, hcommons⟩, h⟩ := h
  cases hcommons
  cases h
  refine ⟨by simp [Event.spends], rfl, rfl, rfl, fun w => ?_, rfl, fun s e he => he⟩
  -- The standing of the account that signs in: the one it had, or a new one.
  have hinsert : ∀ (v : UserId) (a : User), (w ≠ v →
      { p.db with users := p.db.users.insert v a }.standing w = p.db.standing w) ∧
      { p.db with users := p.db.users.insert v a }.standing v =
        (some (a.isLocal, a.role, a.status), (p.db.standing v).2) := by
    intro v a
    unfold Database.standing
    simp only [Table.lookup_insert_ite]
    constructor
    · intro hne
      rw [if_neg hne]
    · rw [if_pos trivial, Option.map_some]
  cases hfind : p.db.users.find? fun _ user => !user.isLocal && user.subject == subject with
  | some found =>
    obtain ⟨v, a⟩ := found
    obtain ⟨hlookup, -⟩ := Table.find?_eq_some hfind
    left
    show { p.db with users := p.db.users.insert v { a with username := username } }.standing w = _
    by_cases hw : w = v
    · rw [hw, (hinsert v _).2, Database.standing_eq p.db hlookup]
    · exact (hinsert v _).1 hw
  | none =>
    rw [hfind] at hfresh
    simp only [Option.isSome_none, Bool.false_or, Option.isNone_iff_eq_none] at hfresh
    by_cases hw : w = fresh
    · right
      refine ⟨?_, .inl ?_⟩
      · rw [hw]
        show (p.db.users.lookup fresh).map _ = none
        rw [hfresh, Option.map_none]
      · rw [hw]
        exact (hinsert fresh { isLocal := false, subject := subject, username := username }).2
    · left
      exact (hinsert fresh { isLocal := false, subject := subject, username := username }).1 hw

/-- The transactions that leave links and enrollments alone. -/
theorem untouched_of_effect (hinv : Revocation past p) {l : Label}
    (h : p.effect crypto settings l = .ok (q, es)) (hl : l.touchesLinks = false) :
    Untouched p q es := by
  cases l with
  | recognize u device now =>
    simp only [effect, bind_eq_ok, require_eq_ok] at h
    obtain ⟨user, -, -, -, h⟩ := h
    cases h
    exact untouched_sessions (quiet_recognized _ _ _ _) ⟨p.db.sessions, rfl⟩ rfl fun r e he => he
  | signIn r username password device lockedOut now =>
    cases h
    exact untouched_sessions (quiet_recognizedAccount _ _ _) ⟨p.db.sessions, rfl⟩ rfl
      fun s e he => setRequest_enrolling (fun e => by simp) he
  | stepUp r sid now =>
    simp only [effect, bind_eq_ok] at h
    obtain ⟨⟨row, user⟩, -, db, hauth, h⟩ := h
    cases h
    exact untouched_sessions (by simp [Event.spends]) (untouched_authenticate hauth) rfl
      fun s e he => setRequest_enrolling (fun e => by simp) he
  | readStepUp r password device lockedOut now =>
    simp only [effect] at h
    split at h
    next =>
      cases h
      exact untouched_sessions (quiet_recognizedAccount _ _ _) ⟨p.db.sessions, rfl⟩ rfl
        fun s e he => setRequest_enrolling (fun e => by simp) he
    next => cases h
  | verify r code lockedOut now =>
    simp only [effect, verify] at h
    split at h
    next v device session _ =>
      simp only [bind_eq_ok] at h
      obtain ⟨⟨db, verified⟩, hverify, h⟩ := h
      cases h
      refine untouched_verifySignIn (fun e he => ?_) hverify
      rcases List.mem_append.mp he with he | he
      · exact quiet_recognizedAccount _ _ _ e he
      · obtain rfl := List.mem_singleton.mp he
        rfl
    next => cases h
  | rehash r replacement => exact untouched_rehash hinv h
  | login r session old device fresh now =>
    simp only [effect, login] at h
    split at h
    next v _ =>
      simp only [bind_eq_ok, Broker.login, require_eq_ok, found_eq_ok] at h
      obtain ⟨-, -, ⟨db, u, user⟩, ⟨⟨u', user'⟩, -, -, -, -, -, hlogin⟩, h⟩ := h
      obtain ⟨rfl, hsame⟩ := Prod.mk.inj (Except.ok.inj hlogin)
      cases h
      refine untouched_sessions (fun e he => ?_) ⟨_, rfl⟩ rfl
        fun s e he => setRequest_enrolling (fun e => by simp) he
      rcases List.mem_cons.mp he with rfl | he
      · rfl
      rcases List.mem_append.mp he with he | he
      · exact quiet_recognized _ _ _ _ e he
      · simp only [issueSession, List.mem_cons, List.not_mem_nil, or_false] at he
        rcases he with rfl | rfl
        all_goals rfl
    next => cases h
  | reauthenticate r now =>
    simp only [effect, reauthenticate] at h
    split at h
    next v sid _ =>
      simp only [bind_eq_ok, Broker.reauthenticate, require_eq_ok] at h
      obtain ⟨-, -, row, -, db, ⟨-, -, -, -, hreauth⟩, h⟩ := h
      cases hreauth
      cases h
      exact untouched_sessions (by simp [Event.spends]) ⟨_, rfl⟩ rfl
        fun s e he => setRequest_enrolling (fun e => by simp) he
    next => cases h
  | authenticate sid kind touch now =>
    simp only [effect, bind_eq_ok] at h
    obtain ⟨⟨row, user⟩, -, db, hauth, h⟩ := h
    cases h
    exact untouched_sessions (by simp [Event.spends]) (untouched_authenticate hauth) rfl
      fun s e he => he
  | logout sid =>
    cases h
    exact untouched_sessions (by simp) ⟨_, rfl⟩ rfl fun s e he => he
  | commons subject username fresh session old now => exact untouched_commons h
  | issueBootstrap link now => exact absurd hl (by simp [Label.touchesLinks])
  | openEnrollment r body binder now => exact absurd hl (by simp [Label.touchesLinks])
  | commitEnrollment r draw now => exact absurd hl (by simp [Label.touchesLinks])
  | finish handle binder totp session old device fresh now =>
    exact absurd hl (by simp [Label.touchesLinks])
  | create sid name role draw now => exact absurd hl (by simp [Label.touchesLinks])
  | change sid u action link now => exact absurd hl (by simp [Label.touchesLinks])

/-- **Every step spends only what `Spends` allows.** -/
theorem step_spends (hinv : Revocation past p) {l : Label} (h : step crypto settings p (l, es) p') :
    Spends p p' es := by
  obtain ⟨-, hfresh, q, heffect, hc⟩ := next_eq_some h
  have hdb := hc.db
  cases l with
  | issueBootstrap link now =>
    cases heffect
    exact spends_untouched (by simp) (by rw [hdb]) (by rw [hdb]) (by rw [hdb])
  | openEnrollment r body binder now => exact spends_openEnrollment hdb heffect
  | commitEnrollment r draw now =>
    exact spends_commitEnrollment (hfresh draw.handle (by simp [Label.draws])) hdb heffect
  | finish handle binder totp session old device fresh now => exact spends_finish hdb heffect
  | create sid name role draw now =>
    exact spends_create (hfresh draw.link.id (by simp [Label.draws])) hdb heffect
  | change sid u action link now =>
    exact spends_change (hfresh link.id (by simp [Label.draws])) hdb heffect
  | _ => exact (untouched_of_effect hinv heffect rfl).spends hdb

theorem spent_init : Spent [] {} where
  enrolled id := ⟨by simp, fun hpos => absurd hpos (by simp)⟩
  link id := ⟨by simp, fun hpos => absurd hpos (by simp), fun k hk => absurd hk
    (by simp [linkFailures])⟩
  completed handle := ⟨by simp, fun hpos => absurd hpos (by simp)⟩
  enrollment handle := ⟨by simp, fun hpos => absurd hpos (by simp), fun k hk => absurd hk
    (by simp [enrollmentFailures])⟩

theorem spent_run {ls : List (Label × List Event)} {p : Portal}
    (h : Run (step crypto settings) {} ls p) :
    Revocation (history ls) p ∧ Spent (history ls) p := by
  refine h.invariant_trace (I := fun ls p => Revocation (history ls) p ∧ Spent (history ls) p)
    ⟨revocation_init, spent_init⟩ ?_
  rintro ls p l p' ⟨hrevocation, hspent⟩ hstep
  obtain ⟨before, change, after, hes, hdoes⟩ := step_performs hrevocation hstep
  rw [history_snoc]
  refine ⟨?_, hspent.next hrevocation hdoes.drawn (step_spends hrevocation hstep)⟩
  rw [hes]
  exact hrevocation.next hdoes

/-- **Revocation and single use.**  In every run, a link enrolls at most once and an enrollment is
completed at most once, each of them meets at most five wrong codes, and whatever is accepted was
issued, for the same account, and no security change of an account it was issued for came in
between. -/
theorem revocation_and_single_use {crypto : Crypto} {settings : Settings}
    {ls : List (Label × List Event)} {p : Portal} (h : Run (step crypto settings) {} ls p) :
    (∀ id, (history ls).countP (Event.enrolls id) ≤ 1) ∧
      (∀ handle, (history ls).count (.completed handle) ≤ 1) ∧
      (∀ id, (history ls).count (.wrongLinkCode id) ≤ 5) ∧
      (∀ handle, (history ls).count (.wrongEnrollmentCode handle) ≤ 5) ∧
      ∀ u c, Trace.AtEach (.accepted u c) (fun past => Event.issued u c ∈ past ∧
        ∀ v, ¬ Trace.Precedes (.issued v c) (.changed v) past) (history ls) := by
  obtain ⟨hrevocation, hspent⟩ := spent_run h
  exact ⟨fun id => (hspent.enrolled id).1, fun handle => (hspent.completed handle).1,
    fun id => (hspent.link id).1, fun handle => (hspent.enrollment handle).1, hrevocation.safe⟩

/-- A hash that is the password itself, and one code that is right. -/
def plainCrypto : Crypto where
  totpCode secret counter := if secret = 14 ∧ counter = 33 then "123456" else "000000"
  verifyPassword password encoded := (password == encoded, false)
  casefold := id

/-- The first administrator enrolls, mistypes a code once, and ends every session. -/
def bootstrapLabels : List Label :=
  [.issueBootstrap ⟨1, 2⟩ 1000,
    .openEnrollment 3 ⟨⟨1, 2⟩, "root", "correct horse battery", true, none⟩ 4 1001,
    .commitEnrollment 3 ⟨11, 12, 13, 14, "correct horse battery"⟩ 1002,
    .finish 13 4 (some "111111") 15 none none 16 1003,
    .finish 13 4 (some "123456") 17 none none 18 1004,
    .authenticate 17 (some .admin) true 1005,
    .change 17 11 .revokeSessions ⟨19, 20⟩ 1006]

theorem revocation_and_single_use_bootstrap : ∃ ls p, Run (step plainCrypto {}) {} ls p ∧
    history ls = [.enrolled 1 13, .issued 11 (.enrollment 13), .accepted 11 (.enrollment 13),
      .wrongEnrollmentCode 13, .accepted 11 (.enrollment 13), .completed 13, .changed 11,
      .issued 11 (.session 17), .issued 11 (.device ⟨11, 2, 7777004, 18⟩),
      .accepted 11 (.session 17), .accepted 11 (.session 17), .changed 11] ∧
    (history ls).count (.completed 13) ≤ 1 := by
  obtain ⟨⟨p, ls⟩, hrun⟩ : ∃ r, runInputs (next plainCrypto {}) {} bootstrapLabels = some r :=
    Option.isSome_iff_exists.mp (by decide +kernel)
  have hhistory : (runInputs (next plainCrypto {}) {} bootstrapLabels).map
      (fun r => history r.2) = some [.enrolled 1 13, .issued 11 (.enrollment 13),
        .accepted 11 (.enrollment 13), .wrongEnrollmentCode 13, .accepted 11 (.enrollment 13),
        .completed 13, .changed 11, .issued 11 (.session 17),
        .issued 11 (.device ⟨11, 2, 7777004, 18⟩), .accepted 11 (.session 17),
        .accepted 11 (.session 17), .changed 11] := by
    decide +kernel
  rw [hrun] at hhistory
  exact ⟨ls, p, Run.of_runInputs hrun, Option.some.inj hhistory,
    (revocation_and_single_use (Run.of_runInputs hrun)).2.1 13⟩

end Step
end Portal
end Broker
end OpenstackPlatform
