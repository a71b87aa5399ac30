import OpenstackPlatform.Broker.Outcomes
import OpenstackPlatform.Library.Trace

/-!
# Revocation and single use

A transaction accepts only credentials of the current generation, and a security change advances it,
so what was issued before the change is never accepted after it.  `Portal.Does` says what one step
does with credentials, `Portal.Revocation` is what holds along every run, and
`Revocation.next` derives the one from the other.
-/

namespace OpenstackPlatform
namespace Broker

open Library

/-! ## What a step does with credentials -/

/-- Events that say nothing about what a credential is worth. -/
def Event.neutral : Event → Bool
  | issued _ _ | accepted _ _ | changed _ => false
  | _ => true

namespace Portal

/-- The account and the generation that a credential carries. -/
def holds (p : Portal) : Credential → Option (UserId × Nat)
  | .device d => if p.signed d then some (d.user, d.generation) else none
  | .verification r => match p.requests r with
    | some (.verified v _) => some (v.user, v.generation)
    | _ => none
  | c => p.db.holds c

/-- Whether a credential may have been issued already. -/
def known (p : Portal) : Credential → Bool
  | .session sid => p.drawn sid
  | .link id => p.drawn id
  | .enrollment handle => p.drawn handle
  | .device d => p.signed d
  | .verification r => p.drawn r && match p.requests r with
    | none | some (.verified _ _) => true
    | _ => false

/-- The name of the account of a session. -/
def Named (p : Portal) (sid : SessionId) (username : String) : Prop :=
  p.drawn sid = true ∧ ∀ row, p.db.sessions.lookup sid = some row →
    ∃ a, p.db.users.lookup row.user = some a ∧ a.isLocal = true ∧ a.username = username

/-- A request speaks for one account: the one of its session, and the one that it verified. -/
def Speaks (p : Portal) : Request → Prop
  | .enrolling _ => True
  | .stepUp sid username => p.Named sid username
  | .verifying v _ session => ∀ sid, session = some sid → p.Named sid v.username
  | .verified v session =>
    (∃ a, p.db.users.lookup v.user = some a ∧ a.isLocal = true ∧ a.username = v.username ∧
      a.subject = v.subject) ∧
    ∀ sid, session = some sid → p.drawn sid = true ∧
      ∀ row, p.db.sessions.lookup sid = some row → row.user = v.user

/-- An event of a step that accepts only a credential of the current generation. -/
def Accepts (p : Portal) (e : Event) : Prop :=
  e.neutral = true ∨
    ∃ u c g, e = .accepted u c ∧ p.holds c = some (u, g) ∧ p.db.gen u = some g

/-- An event of a step that issues only a credential that is new, or a cookie of the current
generation. -/
def Issues (p p' : Portal) (e : Event) : Prop :=
  e.neutral = true ∨ ∃ u c, e = .issued u c ∧ p'.known c = true ∧
    ((p.known c = false ∧ ∀ d, c ≠ .device d) ∨
      ∃ d, c = .device d ∧ d.user = u ∧ p'.db.gen u = some d.generation)

/-- What one step does: it accepts credentials of the current generation, makes at most one security
change, and then issues credentials that are new. -/
structure Does (p p' : Portal) (before : List Event) (change : Option UserId) (after : List Event) :
    Prop where
  outcome : ∃ issued, p.db.Outcome p'.db change issued
  accepts : ∀ e ∈ before, p.Accepts e
  issues : ∀ e ∈ after, p.Issues p' e
  owner : ∃ u, ∀ v c, Event.issued v c ∈ after → v = u
  known : ∀ c, p.known c = true → p'.known c = true
  drawn : ∀ n, p.drawn n = true → p'.drawn n = true
  holds : ∀ c u g, p'.holds c = some (u, g) →
    p.holds c = some (u, g) ∨ (Event.issued u c ∈ after ∧ p'.db.gen u = some g)
  requests : ∀ r request, p'.requests r = some request →
    p.requests r = some request ∨ (p'.Speaks request ∧ p'.drawn r = true)

/-- The events of a step, in order. -/
def events (before : List Event) (change : Option UserId) (after : List Event) : List Event :=
  before ++ (change.toList.map .changed ++ after)

/-- **What holds along every run**, of the events so far and the state reached. -/
structure Revocation (es : List Event) (p : Portal) : Prop where
  unique : ∀ u v a b, p.db.users.lookup u = some a → p.db.users.lookup v = some b →
    a.isLocal = true → b.isLocal = true → a.username = b.username ∨ a.subject = b.subject → u = v
  requests : ∀ r request, p.requests r = some request → p.Speaks request ∧ p.drawn r = true
  keys : ∀ c e, p.holds c = some e → p.known c = true
  held : ∀ c u g, p.holds c = some (u, g) → ∃ n, p.db.gen u = some n ∧ g ≤ n ∧
    (g = n → ¬ Trace.Precedes (.issued u c) (.changed u) es)
  issued : ∀ u c, Event.issued u c ∈ es → p.known c = true
  traced : ∀ c u g, p.holds c = some (u, g) → Event.issued u c ∈ es
  owner : ∀ u v c, Event.issued u c ∈ es → Event.issued v c ∈ es → u = v
  device : ∀ u d, Event.issued u (.device d) ∈ es → d.user = u ∧ ∀ n, p.db.gen u = some n →
    Trace.Precedes (.issued u (.device d)) (.changed u) es → d.generation < n
  safe : ∀ v c, Trace.AtEach (.accepted v c) (fun past => Event.issued v c ∈ past ∧
    ∀ u, ¬ Trace.Precedes (.issued u c) (.changed u) past) es

section Step

variable {p p' : Portal} {before after : List Event} {change : Option UserId} {es : List Event}

theorem Does.not_mem_before (h : Does p p' before change after) (u : UserId) (c : Credential) :
    Event.issued u c ∉ before ∧ Event.changed u ∉ before := by
  constructor
  · intro hmem
    rcases h.accepts _ hmem with hneutral | ⟨v, c', g, heq, -⟩
    · exact absurd hneutral (by simp [Event.neutral])
    · cases heq
  · intro hmem
    rcases h.accepts _ hmem with hneutral | ⟨v, c', g, heq, -⟩
    · exact absurd hneutral (by simp [Event.neutral])
    · cases heq

theorem Does.not_mem_after (h : Does p p' before change after) (u : UserId) (c : Credential) :
    Event.accepted u c ∉ after ∧ Event.changed u ∉ after := by
  constructor
  · intro hmem
    rcases h.issues _ hmem with hneutral | ⟨v, c', heq, -⟩
    · exact absurd hneutral (by simp [Event.neutral])
    · cases heq
  · intro hmem
    rcases h.issues _ hmem with hneutral | ⟨v, c', heq, -⟩
    · exact absurd hneutral (by simp [Event.neutral])
    · cases heq

/-- A step makes a security change of an account exactly when its event says so. -/
theorem Does.changed_mem (h : Does p p' before change after) {u : UserId} :
    Event.changed u ∈ events before change after ↔ change = some u := by
  unfold events
  have hbefore := (h.not_mem_before u (.session 0)).2
  have hafter := (h.not_mem_after u (.session 0)).2
  simp only [List.mem_append, hbefore, hafter, or_false, false_or, List.mem_map, Option.mem_toList,
    Event.changed.injEq, exists_eq_right]

theorem Does.issued_mem (h : Does p p' before change after) {u : UserId} {c : Credential} :
    Event.issued u c ∈ events before change after ↔ Event.issued u c ∈ after := by
  unfold events
  have hbefore := (h.not_mem_before u c).1
  simp [hbefore]

/-- What has been issued before a security change, after one more step. -/
theorem Does.precedes (h : Does p p' before change after) {u : UserId} {c : Credential}
    (hprecedes : Trace.Precedes (.issued u c) (.changed u) (es ++ events before change after)) :
    Trace.Precedes (.issued u c) (.changed u) es ∨ (Event.issued u c ∈ es ∧ change = some u) := by
  rcases Trace.precedes_append.mp hprecedes with hold | ⟨hissued, hchanged⟩ | hnew
  · exact .inl hold
  · exact .inr ⟨hissued, h.changed_mem.mp hchanged⟩
  · unfold events at hnew
    rcases Trace.precedes_append.mp hnew with hbefore | ⟨hissued, -⟩ | hrest
    · exact absurd hbefore.mem.1 (h.not_mem_before u c).1
    · exact absurd hissued (h.not_mem_before u c).1
    · rcases Trace.precedes_append.mp hrest with hchange | ⟨hissued, -⟩ | hafter
      · exact absurd hchange.mem.1 (by simp)
      · exact absurd hissued (by simp)
      · exact absurd hafter.mem.2 (h.not_mem_after u c).2

theorem Does.gen (h : Does p p' before change after) {u : UserId} {n : Nat}
    (hn : p.db.gen u = some n) :
    p'.db.gen u = some (if change = some u then n + 1 else n) := by
  obtain ⟨issued, houtcome⟩ := h.outcome
  exact houtcome.gen hn

/-- A request keeps speaking for its account. -/
theorem Speaks.next (h : Does p p' before change after) {request : Request}
    (hspeaks : p.Speaks request) : p'.Speaks request := by
  obtain ⟨issued, houtcome⟩ := h.outcome
  have hsession : ∀ sid row, p.drawn sid = true → p'.db.sessions.lookup sid = some row →
      ∃ old, p.db.sessions.lookup sid = some old ∧ old.user = row.user := by
    intro sid row hdrawn hrow
    have hholds : p'.holds (.session sid) = some (row.user, row.generation) := by
      show (p'.db.sessions.lookup sid).map _ = _
      rw [hrow, Option.map_some]
    rcases h.holds _ _ _ hholds with hold | ⟨hissued, -⟩
    · obtain ⟨old, hold, heq⟩ := Option.map_eq_some_iff.mp hold
      exact ⟨old, hold, (Prod.mk.inj heq).1⟩
    · rcases h.issues _ hissued with hneutral | ⟨u, c, heq, -, hfresh⟩
      · exact absurd hneutral (by simp [Event.neutral])
      · obtain ⟨rfl, rfl⟩ := Event.issued.inj heq
        rcases hfresh with ⟨hfresh, -⟩ | ⟨d, hd, -⟩
        · rw [known, hdrawn] at hfresh
          cases hfresh
        · cases hd
  have hnamed : ∀ sid username, p.Named sid username → p'.Named sid username := by
    rintro sid username ⟨hdrawn, hrow⟩
    refine ⟨h.drawn sid hdrawn, fun row hlookup => ?_⟩
    obtain ⟨old, hold, huser⟩ := hsession sid row hdrawn hlookup
    obtain ⟨a, ha, hlocal, hname⟩ := hrow old hold
    obtain ⟨a', ha', hsame, -⟩ := houtcome.user old.user a ha
    exact ⟨a', by rw [← huser, ha'], hsame.1.trans hlocal, (hsame.2 hlocal).1.trans hname⟩
  cases request with
  | enrolling e => trivial
  | stepUp sid username => exact hnamed sid username hspeaks
  | verifying v device session => exact fun sid hsid => hnamed sid _ (hspeaks sid hsid)
  | verified v session =>
    obtain ⟨⟨a, ha, hlocal, hname, hsubject⟩, hsid⟩ := hspeaks
    obtain ⟨a', ha', hsame, -⟩ := houtcome.user v.user a ha
    refine ⟨⟨a', ha', hsame.1.trans hlocal, (hsame.2 hlocal).1.trans hname,
      (hsame.2 hlocal).2.trans hsubject⟩, fun sid heq => ?_⟩
    obtain ⟨hdrawn, hrow⟩ := hsid sid heq
    refine ⟨h.drawn sid hdrawn, fun row hlookup => ?_⟩
    obtain ⟨old, hold, huser⟩ := hsession sid row hdrawn hlookup
    rw [← huser, hrow old hold]

/-- What is held after a step was held before it, or is newly issued and was not known. -/
theorem Revocation.held_next (hinv : Revocation es p) (h : Does p p' before change after)
    {c : Credential} {u : UserId} {g : Nat} (hheld : p'.holds c = some (u, g)) :
    ∃ n, p'.db.gen u = some n ∧ g ≤ n ∧
      (g = n → ¬ Trace.Precedes (.issued u c) (.changed u) (es ++ events before change after)) := by
  rcases h.holds c u g hheld with hold | ⟨hissued, hgen⟩
  · obtain ⟨n, hn, hle, hfresh⟩ := hinv.held c u g hold
    refine ⟨_, h.gen hn, ?_, ?_⟩
    · split
      · omega
      · exact hle
    · intro heq hprecedes
      by_cases hchange : change = some u
      · rw [if_pos hchange] at heq
        omega
      · rw [if_neg hchange] at heq
        rcases h.precedes hprecedes with hold | ⟨-, hchange'⟩
        · exact hfresh heq hold
        · exact hchange hchange'
  · refine ⟨g, hgen, le_refl g, fun _ hprecedes => ?_⟩
    have hmem : Event.issued u c ∈ es := by
      rcases h.precedes hprecedes with hold | ⟨hmem, -⟩
      · exact hold.mem.1
      · exact hmem
    rcases h.issues _ hissued with hneutral | ⟨v, c', heq, -, hfresh⟩
    · exact absurd hneutral (by simp [Event.neutral])
    obtain ⟨rfl, rfl⟩ := Event.issued.inj heq
    rcases hfresh with ⟨hfresh, -⟩ | ⟨d, rfl, hd, hgen'⟩
    · rw [hinv.issued u c hmem] at hfresh
      cases hfresh
    · -- The same cookie was issued before: its generation is older than the current one.
      cases hgen.symm.trans hgen'
      have hsigned : p.signed d = true := hinv.issued u (.device d) hmem
      have hold : p.holds (.device d) = some (u, d.generation) := by
        rw [holds, if_pos hsigned, hd]
      obtain ⟨n, hn, hle, -⟩ := hinv.held _ _ _ hold
      have hnext := (h.gen hn).symm.trans hgen
      rcases h.precedes hprecedes with hstale | ⟨-, hchange⟩
      · have hlt := (hinv.device u d hmem).2 n hn hstale
        simp only [Option.some.injEq] at hnext
        split at hnext
        all_goals omega
      · rw [if_pos hchange] at hnext
        simp only [Option.some.injEq] at hnext
        omega

/-- **One step keeps the invariant.** -/
theorem Revocation.next (hinv : Revocation es p) (h : Does p p' before change after) :
    Revocation (es ++ events before change after) p' where
  unique u v a b ha hb hlocal hlocal' hsame := by
    obtain ⟨issued, houtcome⟩ := h.outcome
    by_contra hne
    cases hu : p.db.users.lookup u with
    | none =>
      have hdiffer := houtcome.added u a ha hu hlocal v b hb (Ne.symm hne) hlocal'
      rcases hsame with hname | hsubject
      · exact hdiffer.1 hname.symm
      · exact hdiffer.2 hsubject.symm
    | some a' =>
      cases hv : p.db.users.lookup v with
      | none =>
        have hdiffer := houtcome.added v b hb hv hlocal' u a ha hne hlocal
        rcases hsame with hname | hsubject
        · exact hdiffer.1 hname
        · exact hdiffer.2 hsubject
      | some b' =>
        obtain ⟨a'', ha'', hsamea, -⟩ := houtcome.user u a' hu
        cases ha.symm.trans ha''
        obtain ⟨b'', hb'', hsameb, -⟩ := houtcome.user v b' hv
        cases hb.symm.trans hb''
        have ha'local : a'.isLocal = true := hsamea.1.symm.trans hlocal
        have hb'local : b'.isLocal = true := hsameb.1.symm.trans hlocal'
        rw [(hsamea.2 ha'local).1, (hsamea.2 ha'local).2, (hsameb.2 hb'local).1,
          (hsameb.2 hb'local).2] at hsame
        exact hne (hinv.unique u v a' b' hu hv ha'local hb'local hsame)
  requests r request hrequest := by
    rcases h.requests r request hrequest with hold | hspeaks
    · obtain ⟨hspeaks, hdrawn⟩ := hinv.requests r request hold
      exact ⟨Speaks.next h hspeaks, h.drawn r hdrawn⟩
    · exact hspeaks
  keys c e he := by
    rcases h.holds c e.1 e.2 he with hold | ⟨hissued, -⟩
    · exact h.known c (hinv.keys c e hold)
    · rcases h.issues _ hissued with hneutral | ⟨u, c', heq, hknown, -⟩
      · exact absurd hneutral (by simp [Event.neutral])
      · obtain ⟨-, rfl⟩ := Event.issued.inj heq
        exact hknown
  held c u g hheld := hinv.held_next h hheld
  issued u c hmem := by
    rcases List.mem_append.mp hmem with hold | hnew
    · exact h.known c (hinv.issued u c hold)
    · rcases h.issues _ (h.issued_mem.mp hnew) with hneutral | ⟨v, c', heq, hknown, -⟩
      · exact absurd hneutral (by simp [Event.neutral])
      · obtain ⟨-, rfl⟩ := Event.issued.inj heq
        exact hknown
  traced c u g hheld := by
    rcases h.holds c u g hheld with hold | ⟨hissued, -⟩
    · exact List.mem_append_left _ (hinv.traced c u g hold)
    · exact List.mem_append_right _ (h.issued_mem.mpr hissued)
  owner u v c hu hv := by
    -- What is issued in this step was not issued before, unless it is the same cookie.
    have hnew : ∀ u v, Event.issued u c ∈ after → Event.issued v c ∈ es → u = v := by
      intro u v hafter hold
      rcases h.issues _ hafter with hneutral | ⟨w, c', heq, -, hfresh⟩
      · exact absurd hneutral (by simp [Event.neutral])
      obtain ⟨rfl, rfl⟩ := Event.issued.inj heq
      rcases hfresh with ⟨hfresh, -⟩ | ⟨d, rfl, hd, -⟩
      · rw [hinv.issued v c hold] at hfresh
        cases hfresh
      · exact hd.symm.trans (hinv.device v d hold).1
    rcases List.mem_append.mp hu with hu | hu
    · rcases List.mem_append.mp hv with hv | hv
      · exact hinv.owner u v c hu hv
      · exact (hnew v u (h.issued_mem.mp hv) hu).symm
    · rcases List.mem_append.mp hv with hv | hv
      · exact hnew u v (h.issued_mem.mp hu) hv
      · obtain ⟨w, hw⟩ := h.owner
        exact (hw u c (h.issued_mem.mp hu)).trans (hw v c (h.issued_mem.mp hv)).symm
  device u d hmem := by
    have huser : d.user = u := by
      rcases List.mem_append.mp hmem with hold | hnew
      · exact (hinv.device u d hold).1
      · rcases h.issues _ (h.issued_mem.mp hnew) with hneutral | ⟨v, c, heq, hknown, hfresh⟩
        · exact absurd hneutral (by simp [Event.neutral])
        obtain ⟨rfl, rfl⟩ := Event.issued.inj heq
        rcases hfresh with ⟨-, hnot⟩ | ⟨d', heq', hd, -⟩
        · exact absurd rfl (hnot d)
        · obtain rfl := Credential.device.inj heq'
          exact hd
    refine ⟨huser, fun n hn hprecedes => ?_⟩
    have hold : Event.issued u (.device d) ∈ es := by
      rcases h.precedes hprecedes with hstale | ⟨hold, -⟩
      · exact hstale.mem.1
      · exact hold
    have hsigned : p.signed d = true := hinv.issued u (.device d) hold
    have hheld : p.holds (.device d) = some (u, d.generation) := by
      rw [holds, if_pos hsigned, huser]
    obtain ⟨m, hm, hle, -⟩ := hinv.held _ _ _ hheld
    have hnext := Option.some.inj ((h.gen hm).symm.trans hn)
    rcases h.precedes hprecedes with hstale | ⟨-, hchange⟩
    · have hlt := (hinv.device u d hold).2 m hm hstale
      split at hnext
      all_goals omega
    · rw [if_pos hchange] at hnext
      omega
  safe v c := by
    refine Trace.atEach_append.mpr ⟨hinv.safe v c, ?_⟩
    unfold events
    refine Trace.atEach_append.mpr ⟨?_, ?_⟩
    · intro rest tail heq
      have hmem : Event.accepted v c ∈ before := by rw [heq]; simp
      rcases h.accepts _ hmem with hneutral | ⟨w, c', g, hevent, hheld, hgen⟩
      · exact absurd hneutral (by simp [Event.neutral])
      obtain ⟨rfl, rfl⟩ := Event.accepted.inj hevent
      obtain ⟨n, hn, -, hfresh⟩ := hinv.held c v g hheld
      cases hgen.symm.trans hn
      have hissued := hinv.traced c v g hheld
      have hnot : ∀ e ∈ rest, e ∈ before := fun e he => by rw [heq]; simp [he]
      refine ⟨List.mem_append_left _ hissued, fun u hprecedes => ?_⟩
      rcases Trace.precedes_append.mp hprecedes with hold | ⟨-, hchanged⟩ | hrest
      · obtain rfl := hinv.owner v u c hissued hold.mem.1
        exact hfresh rfl hold
      · exact (h.not_mem_before u c).2 (hnot _ hchanged)
      · exact (h.not_mem_before u c).2 (hnot _ hrest.mem.2)
    · intro rest tail heq
      have hmem : Event.accepted v c ∈ change.toList.map Event.changed ++ after := by rw [heq]; simp
      rcases List.mem_append.mp hmem with hmem | hmem
      · exact absurd hmem (by simp)
      · exact absurd hmem (h.not_mem_after v c).1

/-! ## The steps -/

/-- What a step does to one request: nothing, its end, a stage that speaks for one account, or a
verification whose hash was replaced. -/
inductive Turn (p p' : Portal) (after : List Event) (r : Nat) : Prop where
  | same (h : p'.requests r = p.requests r)
  | ends (h : p'.requests r = none) (hold : p.requests r ≠ none)
  | stage (request : Request) (h : p'.requests r = some request) (hspeaks : p'.Speaks request)
      (hfresh : p.requests r = none → p.drawn r = false) (hdrawn : p'.drawn r = true)
      (hold : ∀ v session, p.requests r ≠ some (.verified v session))
      (hnew : ∀ v session, request = .verified v session →
        Event.issued v.user (.verification r) ∈ after ∧ p'.db.gen v.user = some v.generation)
  | rehashed (v : Verified) (session : Option SessionId)
      (h : p'.requests r = some (.verified { v with upgrade := false } session))
      (hold : p.requests r = some (.verified v session))
      (hspeaks : p'.Speaks (.verified { v with upgrade := false } session))
      (hdrawn : p'.drawn r = true)

/-- What a step does with credentials, from what it does to the tables, the cookies and the
requests. -/
theorem Does.of (issued : UserId → Credential → Prop)
    (houtcome : p.db.Outcome p'.db change issued)
    (hissued : ∀ u c, issued u c → Event.issued u c ∈ after)
    (haccepts : ∀ e ∈ before, p.Accepts e) (hissues : ∀ e ∈ after, p.Issues p' e)
    (howner : ∃ u, ∀ v c, Event.issued v c ∈ after → v = u)
    (hdrawn : ∀ n, p.drawn n = true → p'.drawn n = true)
    (hkept : ∀ d, p.signed d = true → p'.signed d = true)
    (hsigned : ∀ d, p'.signed d = true → p.signed d = true ∨
      (Event.issued d.user (.device d) ∈ after ∧ p'.db.gen d.user = some d.generation))
    (hturn : ∀ r, Turn p p' after r) : Does p p' before change after where
  outcome := ⟨issued, houtcome⟩
  accepts := haccepts
  issues := hissues
  owner := howner
  drawn := hdrawn
  known c hc := by
    cases c with
    | session sid => exact hdrawn sid hc
    | link id => exact hdrawn id hc
    | enrollment handle => exact hdrawn handle hc
    | device d => exact hkept d hc
    | verification r =>
      simp only [Portal.known, Bool.and_eq_true] at hc ⊢
      obtain ⟨hr, hc⟩ := hc
      refine ⟨hdrawn r hr, ?_⟩
      cases hturn r with
      | same h => rw [h]; exact hc
      | ends h hold => rw [h]
      | stage request h hspeaks hfresh hdrawn' hold hnew =>
        cases hrequest : p.requests r with
        | none =>
          rw [hfresh hrequest] at hr
          cases hr
        | some request' =>
          rw [hrequest] at hc
          cases request' with
          | verified v session => exact absurd hrequest (hold v session)
          | enrolling e => cases hc
          | stepUp sid username => cases hc
          | verifying v device session => cases hc
      | rehashed v session h hold hspeaks hdrawn' => rw [h]
  holds c u g hc := by
    have htables : ∀ c, p'.db.holds c = some (u, g) → p.db.holds c = some (u, g) ∨
        (Event.issued u c ∈ after ∧ p'.db.gen u = some g) := by
      intro c hc
      rcases houtcome.holds c u g hc with hold | ⟨hnew, hgen⟩
      · exact .inl hold
      · exact .inr ⟨hissued u c hnew, hgen⟩
    cases c with
    | session sid => exact htables (.session sid) hc
    | link id => exact htables (.link id) hc
    | enrollment handle => exact htables (.enrollment handle) hc
    | device d =>
      simp only [Portal.holds] at hc ⊢
      split at hc
      next hd =>
        cases hc
        rcases hsigned d hd with hold | hnew
        · rw [if_pos hold]
          exact .inl rfl
        · exact .inr hnew
      next => cases hc
    | verification r =>
      simp only [Portal.holds] at hc ⊢
      cases hturn r with
      | same h =>
        rw [h] at hc
        exact .inl hc
      | ends h hold =>
        rw [h] at hc
        cases hc
      | stage request h hspeaks hfresh hdrawn' hold hnew =>
        rw [h] at hc
        cases request with
        | verified v session =>
          cases hc
          exact .inr (hnew v session rfl)
        | enrolling e => cases hc
        | stepUp sid username => cases hc
        | verifying v device session => cases hc
      | rehashed v session h hold hspeaks hdrawn' =>
        rw [h] at hc
        rw [hold]
        exact .inl hc
  requests r request hrequest := by
    cases hturn r with
    | same h => exact .inl (h ▸ hrequest)
    | ends h hold =>
      rw [h] at hrequest
      cases hrequest
    | stage request' h hspeaks hfresh hdrawn' hold hnew =>
      cases h.symm.trans hrequest
      exact .inr ⟨hspeaks, hdrawn'⟩
    | rehashed v session h hold hspeaks hdrawn' =>
      cases h.symm.trans hrequest
      exact .inr ⟨hspeaks, hdrawn'⟩

end Step
end Portal
end Broker
end OpenstackPlatform
