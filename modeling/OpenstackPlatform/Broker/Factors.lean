import OpenstackPlatform.Broker.SingleUse

/-!
# The factors of an active account

Sign-in relies on the password and the second factor of an active account.  Everything that bears on
them is the account's `Database.standing`; `Portal.Moves` says what one step does to standings and to
the links and enrollments that will change them later, and `Portal.Factors` is the invariant of the
runs whose completions are all sound.
-/

namespace OpenstackPlatform
namespace Broker

open Library

/-! ## Standings -/

/-- A standing that the invariant allows; `factored` says whether the account once had a confirmed
factor. -/
def Standing.Fits (s : Standing) (factored : Bool) : Prop :=
  match s with
  | (none, none) => factored = false
  | (some (false, role, _), none) => role ≠ .admin ∧ factored = false
  | (some (true, role, status), some (password, confirmed)) => status = .active →
    password = true ∧ (role = .admin ∨ factored = true → confirmed = true)
  | _ => False

/-- Whether a standing has a confirmed factor. -/
def Standing.confirmed (s : Standing) : Bool := s.2.any Prod.snd

theorem Standing.Fits.keep {s : Standing} {factored : Bool} (h : s.Fits factored) :
    s.Fits (factored || s.confirmed) := by
  unfold Standing.confirmed
  obtain ⟨user, account⟩ := s
  cases user with
  | none =>
    cases account with
    | none => simpa [Fits] using h
    | some account => exact h.elim
  | some user =>
    obtain ⟨isLocal, role, status⟩ := user
    cases isLocal with
    | false =>
      cases account with
      | none => simpa [Fits] using h
      | some account => exact h.elim
    | true =>
      cases account with
      | none => exact h.elim
      | some account =>
        obtain ⟨password, confirmed⟩ := account
        intro hactive
        obtain ⟨hpassword, hconfirmed⟩ := h hactive
        refine ⟨hpassword, fun hor => ?_⟩
        cases confirmed with
        | true => rfl
        | false =>
          refine hconfirmed ?_
          simpa using hor

theorem Standing.Born.fits {s s' : Standing} {factored : Bool} (h : s.Born s')
    (hfits : s.Fits factored) : s'.Fits (factored || s'.confirmed) := by
  obtain ⟨hnone, hnew⟩ := h
  obtain ⟨user, account⟩ := s
  obtain rfl : user = none := hnone
  cases account with
  | some account => exact hfits.elim
  | none =>
    have hfactored : factored = false := hfits
    rcases hnew with rfl | ⟨role, rfl⟩
    · exact ⟨by simp, by simp [hfactored, Standing.confirmed]⟩
    · exact fun hactive => absurd hactive (by simp)

/-- What an enrollment relies on when it is completed: the account is local, the enrollment brings a
password unless it is a factor reset, and an administrator will have a factor. -/
def Database.Backs (db : Database) (row : Enrollment) : Prop :=
  ∃ role status password confirmed,
    db.standing row.user = (some (true, role, status), some (password, confirmed)) ∧
    (row.purpose ≠ .totpReset → row.passwordHash.isSome = true) ∧
    (role = .admin → row.secret = none → confirmed = true)

namespace Portal

/-- What `enroll` relies on between its transactions: while the link is there, the role and the
factor it read are the account's; only a bootstrap enrollment rests on the operator's file. -/
def Current (p : Portal) (e : Enrolling) : Prop :=
  p.drawn e.link.id = true ∧
    (∀ row, p.db.accountTokens.lookup e.link.id = some row → ∃ role status password confirmed,
      p.db.standing row.user = (some (true, role, status), some (password, confirmed)) ∧
      e.role = role ∧ e.prior.any LocalAccount.totpConfirmed = confirmed) ∧
    ∀ document, p.file = some document → document.id = e.link.id → e.purpose = .bootstrap

/-- **The invariant of runs whose completions are sound.** -/
structure Factors (p : Portal) : Prop where
  fits : ∀ u, (p.db.standing u).Fits (p.factored u)
  enrollment : ∀ handle row, p.db.enrollments.lookup handle = some row → p.db.Backs row
  file : ∀ document, p.file = some document →
    p.drawn document.id = true ∧ p.db.accountTokens.lookup document.id = none
  enrolling : ∀ r e, p.requests r = some (.enrolling e) → p.Current e

/-- What one step does: `change` is the account that has a security change, whose links and
enrollments end. -/
structure Moves (p p' : Portal) (change : Option UserId) : Prop where
  drawn : ∀ n, p.drawn n = true → p'.drawn n = true
  factored : ∀ u, p'.factored u = (p.factored u || (p'.db.standing u).confirmed)
  standing : ∀ u, change ≠ some u →
    p'.db.standing u = p.db.standing u ∨ (p.db.standing u).Born (p'.db.standing u)
  changed : ∀ u, change = some u → (p'.db.standing u).Fits (p'.factored u)
  link : ∀ id row', p'.db.accountTokens.lookup id = some row' →
    (∃ row, p.db.accountTokens.lookup id = some row ∧ row'.user = row.user ∧
      change ≠ some row.user) ∨ (p.drawn id = false ∧ p'.file = p.file)
  enrollment : ∀ handle row', p'.db.enrollments.lookup handle = some row' →
    (∃ row, p.db.enrollments.lookup handle = some row ∧ change ≠ some row.user ∧
      row'.user = row.user ∧ row'.purpose = row.purpose ∧ row'.passwordHash = row.passwordHash ∧
      row'.secret = row.secret) ∨ p'.db.Backs row'
  file : p'.file = p.file ∨ ∀ document, p'.file = some document →
    p.drawn document.id = false ∧ p'.drawn document.id = true
  request : ∀ r e, p'.requests r = some (.enrolling e) →
    p.requests r = some (.enrolling e) ∨ p'.Current e

section Step

variable {p p' : Portal} {change : Option UserId} {past : List Event}

/-- An account that an enrollment or a link stands for keeps its standing. -/
theorem Moves.standing_some (h : Moves p p' change) {u : UserId} (hu : change ≠ some u)
    {user : Bool × Role × Status} {account : Option (Bool × Bool)}
    (hstanding : p.db.standing u = (some user, account)) :
    p'.db.standing u = (some user, account) := by
  rcases h.standing u hu with hsame | ⟨hnone, -⟩
  · rw [hsame, hstanding]
  · rw [hstanding] at hnone
    cases hnone

/-- **One step keeps the invariant.** -/
theorem Factors.next (hinv : Factors p) (hlinks : ∀ id row,
    p.db.accountTokens.lookup id = some row → p.drawn id = true) (h : Moves p p' change) :
    Factors p' where
  fits u := by
    by_cases hu : change = some u
    · exact h.changed u hu
    · rw [h.factored]
      rcases h.standing u hu with hsame | hborn
      · rw [hsame]
        exact (hinv.fits u).keep
      · exact hborn.fits (hinv.fits u)
  enrollment handle row' hrow' := by
    rcases h.enrollment handle row' hrow' with
      ⟨row, hrow, hchange, huser, hpurpose, hhash, hsecret⟩ | hnew
    · obtain ⟨role, status, password, confirmed, hstanding, hpassword, hadmin⟩ :=
        hinv.enrollment handle row hrow
      refine ⟨role, status, password, confirmed, ?_, ?_, ?_⟩
      · rw [huser]
        exact h.standing_some hchange hstanding
      · rw [hpurpose, hhash]
        exact hpassword
      · rw [hsecret]
        exact hadmin
    · exact hnew
  file document hdocument := by
    have hgone : p.drawn document.id = false → p.db.accountTokens.lookup document.id = none := by
      intro hfresh
      cases hrow : p.db.accountTokens.lookup document.id with
      | none => rfl
      | some row =>
        rw [hlinks _ row hrow] at hfresh
        cases hfresh
    have hnone : ∀ (hold : p.db.accountTokens.lookup document.id = none)
        (hnew : p.drawn document.id = true ∨ p'.file ≠ p.file),
        p'.db.accountTokens.lookup document.id = none := by
      intro hold hnew
      cases hrow' : p'.db.accountTokens.lookup document.id with
      | none => rfl
      | some row' =>
        rcases h.link _ row' hrow' with ⟨row, hrow, -⟩ | ⟨hfresh, hfile⟩
        · rw [hold] at hrow
          cases hrow
        · rcases hnew with hdrawn | hfile'
          · rw [hdrawn] at hfresh
            cases hfresh
          · exact absurd hfile hfile'
    by_cases hsame : p'.file = p.file
    · obtain ⟨hdrawn, hlookup⟩ := hinv.file document (hsame ▸ hdocument)
      exact ⟨h.drawn _ hdrawn, hnone hlookup (.inl hdrawn)⟩
    · rcases h.file with hfile | hfile
      · exact absurd hfile hsame
      · obtain ⟨hfresh, hdrawn⟩ := hfile document hdocument
        exact ⟨hdrawn, hnone (hgone hfresh) (.inr hsame)⟩
  enrolling r e he := by
    rcases h.request r e he with hold | hnew
    · obtain ⟨hdrawn, hlink, hfile⟩ := hinv.enrolling r e hold
      refine ⟨h.drawn _ hdrawn, fun row' hrow' => ?_, fun document hdocument hid => ?_⟩
      · rcases h.link _ row' hrow' with ⟨row, hrow, huser, hchange⟩ | ⟨hfresh, -⟩
        · obtain ⟨role, status, password, confirmed, hstanding, hrest⟩ := hlink row hrow
          refine ⟨role, status, password, confirmed, ?_, hrest⟩
          rw [huser]
          exact h.standing_some hchange hstanding
        · rw [hdrawn] at hfresh
          cases hfresh
      · rcases h.file with hsame | hnew
        · exact hfile document (hsame ▸ hdocument) hid
        · have hfresh := (hnew document hdocument).1
          rw [hid, hdrawn] at hfresh
          cases hfresh
    · exact hnew

end Step
end Portal
end Broker
end OpenstackPlatform
