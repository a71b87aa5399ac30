import OpenstackPlatform.Durable
import OpenstackPlatform.Helper.NomadJobs
import OpenstackPlatform.Library.Checks
import OpenstackPlatform.Library.Program
import OpenstackPlatform.Library.Run

/-!
# Deploy keys

The action `app.source.key` of `production.py` reads, creates, replaces and deletes the key pair of
one application.  The pair is a directory: a new one is made beside the old one and renamed into its
place, and an old one is renamed away before it is deleted.  Each step may fail, and the process may
stop at any of them; a stop runs no handler.

No rename replaces a directory that is not empty, so the old pair is renamed away before the new one
takes its place.  A stop or a failure between the two renames leaves the application without a key:
that is the one place where a replacement does not take effect all at once.

* `World`, `Call`, `Plan`, `Ending`: the directories, and what happens at each step.
* `sourceKeyFile`, `sourcePublicKey`, `createSourceKey`, `removeSourceKey`, `sourceKey`: the code.
* `Whole`, `intended`, `AllAtOnce`, `Exposed`: what calls should leave, and the calls that fall
  between the renames.
* `sourceKey_ends`: what one call does.
* `sourceKey_allAtOnce`: single calls and runs of calls.
-/

namespace OpenstackPlatform

open Library

namespace Helper

namespace SourceKeys

/-! ## Directories and steps -/

/-- What `lstat` and `read` tell of a file. -/
structure File where
  isRegular : Bool
  mode : BitVec 12
  mtime : Int
  content : List UInt8
  deriving DecidableEq

/-- The place of a key directory, with the files `id_ed25519` and `id_ed25519.pub` in it. -/
structure Directory where
  isDirectory : Bool
  key : Option File
  pub : Option File
  deriving DecidableEq

/-- The directories of one application: its key directory, the ones that the current call has
staged and retired, and what earlier calls left under names that begin with a dot. -/
structure World where
  directory : Option Directory
  staged : Option Directory
  retired : Option Directory
  leftovers : List Directory
  deriving DecidableEq

/-- A directory that `shutil.rmtree` removes. -/
inductive Tree where
  | staged
  | retired
  deriving DecidableEq

/-- Where a function is called from. -/
inductive Site where
  | create
  | createFile
  | remove
  | publicFile
  | publicKey
  deriving DecidableEq

/-- The steps that may fail.  `parents` makes or checks the two directories above the key
directories; `keyWritten`, `pubWritten` and `exited` are the steps of `ssh-keygen`. -/
inductive Call where
  | parents (site : Site)
  | lstatKey (site : Site)
  | mkdtemp
  | keyWritten
  | pubWritten
  | exited
  | chmodKey
  | chmodPub
  | exists
  | renameOld
  | renameNew
  | scan (tree : Tree)
  | unlinkKey (tree : Tree)
  | unlinkPub (tree : Tree)
  | rmdir (tree : Tree)
  | lstatDirectory
  | openPub
  | statPub
  | readPub
  | closePub
  deriving DecidableEq

/-- How a call ends, when it does not return: `OSError`, an error of `subprocess.run`, `ValueError`,
an error of the helper, or the process has stopped. -/
inductive Ending where
  | os
  | process
  | value
  | helper (error : Error)
  | stopped
  deriving DecidableEq

/-- The blanks of `str.split` among the ASCII characters. -/
def isBlank (b : UInt8) : Bool := (9 ≤ b && b ≤ 13) || (28 ≤ b && b ≤ 32)

/-- `str.split` -/
def words (raw : List UInt8) : List (List UInt8) :=
  (raw.splitOnP isBlank).filter (· ≠ [])

/-- `ssh-ed25519` -/
def keyType : List UInt8 := [115, 115, 104, 45, 101, 100, 50, 53, 53, 49, 57]

/-- A text as `ssh-keygen` writes it into the public file: a short ASCII text of the type, the key
in base64 and a comment.  `fingerprint` decodes the key and encodes its hash. -/
def IsPublicText (fingerprint : List UInt8 → Option (List UInt8)) (raw : List UInt8) : Prop :=
  raw.length ≤ 4096 ∧ raw.all (· < 128) = true ∧
    ∃ blob comment print, words raw = keyType :: blob :: comment ∧ fingerprint blob = some print

/-- What `ssh-keygen` makes: a private key with its public key. -/
structure KeyPair (fingerprint : List UInt8 → Option (List UInt8)) where
  key : List UInt8
  pub : List UInt8
  isPublicText : IsPublicText fingerprint pub

/-- What happens at each step of a call, the pair that `ssh-keygen` makes and when, and the order
in which a directory lists its files. -/
structure Plan (fingerprint : List UInt8 → Option (List UInt8)) where
  outcome : Call → Durable.Outcome
  pair : KeyPair fingerprint
  now : Int
  keyFirst : Bool

/-- `mode` -/
inductive Mode where
  | read
  | create
  | replace
  | delete
  deriving DecidableEq, Repr

/-- What is told of a public key. -/
structure PublicKey where
  publicKey : List UInt8
  fingerprint : List UInt8
  createdAt : Int
  deriving DecidableEq

/-! ## The code -/

section Function

variable {fingerprint : List UInt8 → Option (List UInt8)} (plan : Plan fingerprint)

/-- A step that fails with an exception. -/
def call (failure : Ending) (c : Call) : Except Ending Unit :=
  match plan.outcome c with
  | .done => .ok ()
  | .fail => .error failure
  | .stop => .error .stopped

/-- A step that changes the directories, or fails by what it finds. -/
def attempt (failure : Ending) (c : Call) (f : World → Except Ending World) :
    Program World Ending Unit :=
  .commit fun w => do
    call plan failure c
    f w

/-- A step that changes the directories. -/
def act (failure : Ending) (c : Call) (f : World → World) : Program World Ending Unit :=
  attempt plan failure c fun w => .ok (f w)

/-- What `lstat` tells of the private file. -/
def keyPresent : Option Directory → Except Ending Bool
  | none => .ok false
  | some d =>
    if d.isDirectory then
      match d.key with
      | none => .ok false
      | some file =>
        if file.isRegular && file.mode &&& 0o077 == 0 then .ok true
        else .error
          (.helper (.helperAction "INVALID_STATE" "deploy key is not a private direct file"))
    else .error .os

/-- `_source_key_file`: whether there is a private key. -/
def sourceKeyFile (site : Site) (w : World) : Except Ending Bool := do
  call plan .os (.parents site)
  call plan .os (.lstatKey site)
  keyPresent w.directory

/-- The public key in a text. -/
def publicKeyOf (fingerprint : List UInt8 → Option (List UInt8)) (file : File) :
    Except Ending PublicKey :=
  let raw := file.content.take 4096
  if raw.all (· < 128) then
    match words raw with
    | kind :: blob :: _ =>
      if kind = keyType then
        match fingerprint blob with
        | some print => .ok ⟨keyType ++ 32 :: blob, print, file.mtime⟩
        | none => .error .value
      else .error (.helper (.helperAction "INVALID_STATE" "deploy public key is malformed"))
    | _ => .error (.helper (.helperAction "INVALID_STATE" "deploy public key is malformed"))
  else .error .value

/-- `os.fstat` and `os.read` of the public file. -/
def readPublic (file : File) : Except Ending File := do
  call plan .os .statPub
  if file.isRegular && file.content.length ≤ 4096 then
    call plan .os .readPub
    .ok file
  else .error (.helper (.helperAction "INVALID_STATE" "deploy public key is malformed"))

/-- `try: body finally: os.close(descriptor)` -/
def closing {α : Type} (body : Except Ending α) : Except Ending α :=
  match body with
  | .error .stopped => .error .stopped
  | body => do
    call plan .os .closePub
    body

/-- `_source_public_key` -/
def sourcePublicKey (w : World) : Except Ending (Option PublicKey) := do
  if ← sourceKeyFile plan .publicFile w then
    call plan .os (.parents .publicKey)
    call plan .os .openPub
    match w.directory.bind Directory.pub with
    | none => .error .os
    | some file => do
      let file ← closing plan (readPublic plan file)
      let key ← publicKeyOf fingerprint file
      .ok (some key)
  else .ok none

/-- `except OSError: pass` -/
def ignoring (p : Program World Ending Unit) : Program World Ending Unit :=
  .tryCatch p fun
    | .stopped => .throw .stopped
    | _ => pure ()

/-- `try: body finally: last`, where a stop runs neither. -/
def finallyDo (body last : Program World Ending Unit) : Program World Ending Unit := do
  .tryCatch body fun
    | .stopped => .throw .stopped
    | e => do
      last
      .throw e
  last

/-- A directory of the current call. -/
def World.tree (w : World) : Tree → Option Directory
  | .staged => w.staged
  | .retired => w.retired

/-- The world with another directory of the current call. -/
def World.setTree (w : World) (d : Option Directory) : Tree → World
  | .staged => { w with staged := d }
  | .retired => { w with retired := d }

/-- The listing of a directory. -/
def scan (tree : Tree) : Program World Ending Unit :=
  attempt plan .os (.scan tree) fun w => if (w.tree tree).isSome then .ok w else .error .os

/-- The private file is unlinked, if the directory has one. -/
def unlinkKey (tree : Tree) : Program World Ending Unit := do
  if ← .read fun w => (w.tree tree).any fun d => d.key.isSome then
    act plan .os (.unlinkKey tree) fun w =>
      w.setTree ((w.tree tree).map fun d => { d with key := none }) tree
  else pure ()

/-- The public file is unlinked, if the directory has one. -/
def unlinkPub (tree : Tree) : Program World Ending Unit := do
  if ← .read fun w => (w.tree tree).any fun d => d.pub.isSome then
    act plan .os (.unlinkPub tree) fun w =>
      w.setTree ((w.tree tree).map fun d => { d with pub := none }) tree
  else pure ()

/-- `os.rmdir` -/
def rmdir (tree : Tree) : Program World Ending Unit :=
  attempt plan .os (.rmdir tree) fun w =>
    if (w.tree tree).any fun d => d.key.isNone && d.pub.isNone then .ok (w.setTree none tree)
    else .error .os

/-- The files are unlinked in the order in which the directory lists them. -/
def unlinkFiles (tree : Tree) : Program World Ending Unit :=
  if plan.keyFirst then do
    unlinkKey plan tree
    unlinkPub plan tree
  else do
    unlinkPub plan tree
    unlinkKey plan tree

/-- `shutil.rmtree` -/
def removeTree (tree : Tree) : Program World Ending Unit := do
  scan plan tree
  unlinkFiles plan tree
  rmdir plan tree

/-- The same, with an error of one unlink ignored before the next. -/
def unlinkFilesIgnoring (tree : Tree) : Program World Ending Unit :=
  if plan.keyFirst then do
    ignoring (unlinkKey plan tree)
    ignoring (unlinkPub plan tree)
  else do
    ignoring (unlinkPub plan tree)
    ignoring (unlinkKey plan tree)

/-- `shutil.rmtree` with `ignore_errors=True` -/
def removeTreeIgnoring (tree : Tree) : Program World Ending Unit :=
  ignoring do
    scan plan tree
    unlinkFilesIgnoring plan tree
    ignoring (rmdir plan tree)

/-- `ssh-keygen` and the two `os.chmod` -/
def fill : Program World Ending Unit := do
  act plan .process .keyWritten fun w => { w with
    staged := w.staged.map fun d =>
      { d with key := some ⟨true, 0o600, plan.now, plan.pair.key⟩ } }
  act plan .process .pubWritten fun w => { w with
    staged := w.staged.map fun d =>
      { d with pub := some ⟨true, 0o644, plan.now, plan.pair.pub⟩ } }
  act plan .process .exited id
  act plan .os .chmodKey fun w => { w with
    staged := w.staged.map fun d => { d with key := d.key.map fun f => { f with mode := 0o600 } } }
  act plan .os .chmodPub fun w => { w with
    staged := w.staged.map fun d => { d with pub := d.pub.map fun f => { f with mode := 0o600 } } }

/-- `directory.exists()`, which takes an error for the absence of the directory. -/
def directoryExists (w : World) : Except Ending Bool :=
  match plan.outcome .exists with
  | .done => .ok w.directory.isSome
  | .fail => .ok false
  | .stop => .error .stopped

/-- `os.rename(directory, retired)` -/
def renameOld : Program World Ending Unit :=
  attempt plan .os .renameOld fun w =>
    if w.directory.isSome then .ok { w with directory := none, retired := w.directory }
    else .error .os

/-- `os.rename(staged, directory)`: an empty directory is replaced, another one is not. -/
def renameNew : Program World Ending Unit :=
  attempt plan .os .renameNew fun w =>
    if w.directory.all fun d => d.isDirectory && d.key.isNone && d.pub.isNone then
      .ok { w with directory := w.staged, staged := none }
    else .error .os

/-- What is done only where there is a directory to retire. -/
def when (found : Bool) (p : Program World Ending Unit) : Program World Ending Unit :=
  if found then p else pure ()

/-- The new directory takes the place of the old one. -/
def install : Program World Ending Unit := do
  let found ← .inspect (directoryExists plan)
  when found (renameOld plan)
  renameNew plan
  when found (removeTree plan .retired)

/-- `_create_source_key` -/
def createSourceKey (replace : Bool) : Program World Ending Unit := do
  .inspect fun _ => call plan .os (.parents .create)
  if ← .inspect fun w => if replace then .ok false else sourceKeyFile plan .createFile w then
    pure ()
  else do
    act plan .os .mkdtemp fun w => { w with staged := some ⟨true, none, none⟩ }
    finallyDo
      (do
        fill plan
        install plan)
      (removeTreeIgnoring plan .staged)

/-- What `lstat` tells of the key directory. -/
def isDirect : Option Directory → Except Ending Bool
  | none => .ok false
  | some d =>
    if d.isDirectory then .ok true
    else .error (.helper
      (.helperAction "INVALID_STATE" "deploy key directory is not a direct directory"))

/-- Whether there is a key directory to retire. -/
def directoryFound (w : World) : Except Ending Bool := do
  call plan .os .lstatDirectory
  isDirect w.directory

/-- `_remove_source_key` -/
def removeSourceKey : Program World Ending Unit := do
  .inspect fun _ => call plan .os (.parents .remove)
  if ← .inspect (directoryFound plan) then
    renameOld plan
    removeTree plan .retired
  else pure ()

/-- The part of `app.source.key` that depends on the mode. -/
def change : Mode → Program World Ending Unit
  | .read => pure ()
  | .create => createSourceKey plan false
  | .replace => createSourceKey plan true
  | .delete => removeSourceKey plan

/-- What an earlier call staged or retired and did not remove is left over. -/
def World.begin (w : World) : World :=
  ⟨w.directory, none, none, w.staged.toList ++ w.retired.toList ++ w.leftovers⟩

/-- `app.source.key` -/
def sourceKey (mode : Mode) : Program World Ending (Option PublicKey) := do
  .commit fun w => .ok w.begin
  change plan mode
  .inspect (sourcePublicKey plan)

end Function

/-! ## Steps -/

section Steps

variable {fingerprint : List UInt8 → Option (List UInt8)} {plan : Plan fingerprint} {α : Type}
  {w : World}

/-- No step fails and the process does not stop. -/
def Faultless (plan : Plan fingerprint) : Prop := ∀ c, plan.outcome c = .done

variable {failure : Ending}

theorem call_ok_iff {c : Call} {u : Unit} :
    call plan failure c = .ok u ↔ plan.outcome c = .done := by
  rw [call]
  cases plan.outcome c <;> simp

theorem call_done {c : Call} (h : plan.outcome c = .done) :
    call plan failure c = .ok () := call_ok_iff.mpr h

variable {Q : Except Ending Unit → World → Prop}

theorem attempt_ends {c : Call} {f : World → Except Ending World}
    (hok : plan.outcome c = .done → ∀ u, f w = .ok u → Q (.ok ()) u)
    (herror : ∀ e, (plan.outcome c = .done → f w = .error e) → Q (.error e) w) :
    Program.Ends (attempt plan failure c f) w Q := by
  refine Program.always_commit (fun u hu => ⟨trivial, ?_⟩) fun e he => herror e fun hdone => ?_
  · obtain ⟨_, hcall, hf⟩ := Checks.bind_ok_iff.mp hu
    exact hok (call_ok_iff.mp hcall) u hf
  · rw [call_done hdone] at he
    exact he

theorem act_ends {c : Call} {f : World → World} (hok : plan.outcome c = .done → Q (.ok ()) (f w))
    (herror : plan.outcome c ≠ .done → ∀ e, Q (.error e) w) :
    Program.Ends (act plan failure c f) w Q := by
  refine attempt_ends (fun hdone u hu => Except.ok.inj hu ▸ hok hdone) fun e he => ?_
  exact herror (fun hdone => absurd (he hdone) (by simp)) e

/-- However the program ends, the key directory satisfies `P`; and when no step fails, how it ends
satisfies `R`. -/
abbrev Leaves (plan : Plan fingerprint) (p : Program World Ending α) (w : World)
    (P : Option Directory → Prop) (R : Except Ending α → Prop) : Prop :=
  Program.Ends p w fun r u => P u.directory ∧ (Faultless plan → R r)

/-- The key directory is as it was, and the program returns when no step fails. -/
abbrev Keeps (plan : Plan fingerprint) (p : Program World Ending Unit) (w : World) : Prop :=
  Leaves plan p w (· = w.directory) (· = .ok ())

/-- The key directory is as it was, and a stop is the only thing that could stop the program. -/
abbrev KeepsOn (plan : Plan fingerprint) (p : Program World Ending Unit) (w : World) : Prop :=
  Leaves plan p w (· = w.directory) (· ≠ .error .stopped)

variable {p : Program World Ending Unit}

theorem Keeps.keepsOn (h : Keeps plan p w) : KeepsOn plan p w :=
  h.mono (fun _ h => h) fun r u hu => ⟨hu.1, fun hf => by simp [hu.2 hf]⟩

/-- A program that keeps the directory, and then one that leaves it in some way. -/
theorem Keeps.bind {q : Program World Ending Unit} {P : Option Directory → Prop}
    {R : Except Ending Unit → Prop} (hp : Keeps plan p w) (hw : P w.directory)
    (hq : ∀ u, u.directory = w.directory → Leaves plan q u P R) :
    Leaves plan (p >>= fun _ => q) w P R := by
  refine Program.always_bind (Program.Always.mono hp (fun _ h => h) fun r u hu => ?_)
  cases r with
  | ok a => exact hq u hu.1
  | error e =>
    refine ⟨hu.1 ▸ hw, fun hf => absurd (hu.2 hf) (by simp)⟩

theorem keeps_ignoring (hp : KeepsOn plan p w) : Keeps plan (ignoring p) w := by
  refine Program.always_tryCatch (Program.Always.mono hp (fun _ h => h) fun r u hu => ?_)
  cases r with
  | ok a => exact ⟨hu.1, fun _ => rfl⟩
  | error e =>
    cases e with
    | stopped => exact Program.always_throw ⟨hu.1, fun hf => absurd rfl (hu.2 hf)⟩
    | os => exact Program.always_pure ⟨hu.1, fun _ => rfl⟩
    | process => exact Program.always_pure ⟨hu.1, fun _ => rfl⟩
    | value => exact Program.always_pure ⟨hu.1, fun _ => rfl⟩
    | helper e => exact Program.always_pure ⟨hu.1, fun _ => rfl⟩

/-- An exception that is raised again after a program that keeps the directory. -/
theorem throw_after {e : Ending} (hp : Keeps plan p w)
    (hQ : ∀ e' u, u.directory = w.directory → Q (.error e') u) :
    Program.Ends (p >>= fun _ => Program.throw e) w Q := by
  refine Program.always_bind (Program.Always.mono hp (fun _ h => h) fun r u hu => ?_)
  cases r with
  | ok a => exact Program.always_throw (hQ e u hu.1)
  | error e' => exact hQ e' u hu.1

theorem leaves_finallyDo {body last : Program World Ending Unit} {P : Option Directory → Prop}
    (hbody : Leaves plan body w P (· = .ok ())) (hlast : ∀ u, Keeps plan last u) :
    Leaves plan (finallyDo body last) w P (· = .ok ()) := by
  refine Program.always_bind (Program.always_tryCatch
    (Program.Always.mono hbody (fun _ h => h) fun r u hu => ?_))
  cases r with
  | ok a =>
    exact Program.Always.mono (hlast u) (fun _ h => h) fun r v hv => ⟨hv.1 ▸ hu.1, hv.2⟩
  | error e =>
    have hfault : ¬Faultless plan := fun hf => absurd (hu.2 hf) (by simp)
    have hdone : ∀ (e' : Ending) (v : World), v.directory = u.directory →
        P v.directory ∧ (Faultless plan → (.error e' : Except Ending Unit) = .ok ()) :=
      fun e' v hv => ⟨hv ▸ hu.1, fun hf => absurd hf hfault⟩
    cases e with
    | stopped => exact Program.always_throw (hdone _ u rfl)
    | os => exact throw_after (hlast u) hdone
    | process => exact throw_after (hlast u) hdone
    | value => exact throw_after (hlast u) hdone
    | helper e => exact throw_after (hlast u) hdone

end Steps

/-! ## Removing a directory -/

section Trees

variable {fingerprint : List UInt8 → Option (List UInt8)} {plan : Plan fingerprint} {w : World}
  {tree : Tree}

@[simp] theorem directory_setTree (w : World) (d : Option Directory) :
    (w.setTree d tree).directory = w.directory := by
  cases tree <;> rfl

@[simp] theorem tree_setTree (w : World) (d : Option Directory) :
    (w.setTree d tree).tree tree = d := by
  cases tree <;> rfl

/-- What a step does to the directory that is removed, when no step fails. -/
abbrev Strips (plan : Plan fingerprint) (tree : Tree) (p : Program World Ending Unit) (w : World)
    (f : Directory → Directory) : Prop :=
  Program.Ends p w fun r u => u.directory = w.directory ∧
    (Faultless plan → r = .ok () ∧ u.tree tree = (w.tree tree).map f)

variable {f : Directory → Directory}

/-- A file is unlinked where the directory has it. -/
theorem unlink_strips {c : Call} {has : Directory → Bool} (hnone : ∀ d, has d = false → f d = d) :
    Strips plan tree (do
      if ← .read fun w => (w.tree tree).any has then
        act plan .os c fun w => w.setTree ((w.tree tree).map f) tree
      else pure ()) w f := by
  refine Program.always_bind (Program.always_read ?_)
  show Program.Ends (if _ then _ else _) w _
  split
  · refine act_ends (fun _ => ⟨by simp, fun _ => ⟨rfl, by simp⟩⟩) fun hne e =>
      ⟨rfl, fun hf => absurd (hf _) hne⟩
  · rename_i habsent
    refine Program.always_pure ⟨rfl, fun _ => ⟨rfl, ?_⟩⟩
    cases hd : w.tree tree with
    | none => rfl
    | some d =>
      rw [hd, Option.any_some, Bool.not_eq_true] at habsent
      rw [Option.map_some, hnone d habsent]

theorem unlinkKey_strips :
    Strips plan tree (unlinkKey plan tree) w fun d => { d with key := none } :=
  unlink_strips fun d hd => by
    rw [← Option.isNone_iff_eq_none.mp (Option.isSome_eq_false_iff.mp hd)]

theorem unlinkPub_strips :
    Strips plan tree (unlinkPub plan tree) w fun d => { d with pub := none } :=
  unlink_strips fun d hd => by
    rw [← Option.isNone_iff_eq_none.mp (Option.isSome_eq_false_iff.mp hd)]

/-- One step after another. -/
theorem Strips.bind {p q : Program World Ending Unit} {g : Directory → Directory}
    (hp : Strips plan tree p w f) (hq : ∀ u, Strips plan tree q u g) :
    Strips plan tree (p >>= fun _ => q) w fun d => g (f d) := by
  refine Program.always_bind (hp.mono (fun _ h => h) fun r u hu => ?_)
  cases r with
  | ok a =>
    refine (hq u).mono (fun _ h => h) fun r v hv => ⟨hv.1.trans hu.1, fun hf => ?_⟩
    obtain ⟨hr, hv⟩ := hv.2 hf
    rw [hr, hv, (hu.2 hf).2, Option.map_map]
    exact ⟨rfl, rfl⟩
  | error e => exact ⟨hu.1, fun hf => absurd (hu.2 hf).1 (by simp)⟩

/-- Both files are unlinked, in the order of the listing. -/
theorem unlinkFiles_strips :
    Strips plan tree (unlinkFiles plan tree) w fun d => { d with key := none, pub := none } := by
  rw [unlinkFiles]
  split
  · exact unlinkKey_strips.bind fun _ => unlinkPub_strips
  · exact unlinkPub_strips.bind fun _ => unlinkKey_strips

theorem scan_ends : Program.Ends (scan plan tree) w fun r u => u = w ∧
    (Faultless plan → (w.tree tree).isSome = true → r = .ok ()) ∧
    (Faultless plan → r ≠ .error .stopped) := by
  refine attempt_ends (fun _ u hu => ?_) fun e he => ⟨rfl, fun hf hsome => ?_, fun hf => ?_⟩
  · split at hu
    · exact ⟨(Except.ok.inj hu).symm, fun _ _ => rfl, fun _ => by simp⟩
    · cases hu
  · have h := he (hf _)
    rw [if_pos hsome] at h
    cases h
  · have h := he (hf _)
    split at h
    · cases h
    · cases h
      simp

theorem rmdir_ends : Program.Ends (rmdir plan tree) w fun r u => u.directory = w.directory ∧
    (Faultless plan → (w.tree tree).any (fun d => d.key.isNone && d.pub.isNone) = true →
      r = .ok ()) ∧ (Faultless plan → r ≠ .error .stopped) := by
  refine attempt_ends (fun _ u hu => ?_) fun e he => ⟨rfl, fun hf hempty => ?_, fun hf => ?_⟩
  · split at hu
    · cases hu
      exact ⟨directory_setTree w none, fun _ _ => rfl, fun _ => by simp⟩
    · cases hu
  · have h := he (hf _)
    rw [if_pos hempty] at h
    cases h
  · have h := he (hf _)
    split at h
    · cases h
    · cases h
      simp

/-- A directory is removed when no step fails. -/
theorem removeTree_keeps (hw : (w.tree tree).isSome = true) :
    Keeps plan (removeTree plan tree) w := by
  refine Program.always_bind (scan_ends.mono (fun _ h => h) fun r u hu => ?_)
  obtain ⟨rfl, hok, -⟩ := hu
  cases r with
  | error e => exact ⟨rfl, fun hf => absurd (hok hf hw) (by simp)⟩
  | ok a =>
    refine Program.always_bind (unlinkFiles_strips.mono (fun _ h => h) fun r v hv => ?_)
    cases r with
    | error e => exact ⟨hv.1, fun hf => absurd (hv.2 hf).1 (by simp)⟩
    | ok a =>
      refine rmdir_ends.mono (fun _ h => h) fun r x hx => ⟨hx.1.trans hv.1, fun hf => ?_⟩
      refine hx.2.1 hf ?_
      rw [(hv.2 hf).2]
      obtain ⟨d, hd⟩ := Option.isSome_iff_exists.mp hw
      rw [hd]
      rfl

theorem Strips.keepsOn {p : Program World Ending Unit} (h : Strips plan tree p w f) :
    KeepsOn plan p w :=
  h.mono (fun _ h => h) fun r u hu => ⟨hu.1, fun hf => by simp [(hu.2 hf).1]⟩

/-- The removal that ignores errors. -/
theorem removeTreeIgnoring_keeps : Keeps plan (removeTreeIgnoring plan tree) w := by
  have hrmdir : ∀ u, Keeps plan (ignoring (rmdir plan tree)) u := fun u =>
    keeps_ignoring (rmdir_ends.mono (fun _ h => h) fun r v hv => ⟨hv.1, hv.2.2⟩)
  have hunlink : ∀ u, Keeps plan (unlinkFilesIgnoring plan tree) u := by
    intro u
    rw [unlinkFilesIgnoring]
    split
    · refine Keeps.bind (keeps_ignoring unlinkKey_strips.keepsOn) rfl fun v hv => ?_
      rw [← hv]
      exact keeps_ignoring unlinkPub_strips.keepsOn
    · refine Keeps.bind (keeps_ignoring unlinkPub_strips.keepsOn) rfl fun v hv => ?_
      rw [← hv]
      exact keeps_ignoring unlinkKey_strips.keepsOn
  refine keeps_ignoring (Program.always_bind (scan_ends.mono (fun _ h => h) fun r u hu => ?_))
  obtain ⟨rfl, -, hon⟩ := hu
  cases r with
  | error e => exact ⟨rfl, hon⟩
  | ok a =>
    refine Keeps.keepsOn (Keeps.bind (hunlink u) rfl fun v hv => ?_)
    rw [← hv]
    exact hrmdir v

end Trees

/-! ## What calls leave -/

section States

variable {fingerprint : List UInt8 → Option (List UInt8)}

/-- The directory holds both files of one pair, each private. -/
def Complete (fingerprint : List UInt8 → Option (List UInt8)) (d : Directory) : Prop :=
  ∃ (pair : KeyPair fingerprint) (mtime mtime' : Int),
    d = ⟨true, some ⟨true, 0o600, mtime, pair.key⟩, some ⟨true, 0o600, mtime', pair.pub⟩⟩

/-- There is no key, or a complete pair. -/
def Whole (fingerprint : List UInt8 → Option (List UInt8)) (d : Option Directory) : Prop :=
  ∀ e ∈ d, Complete fingerprint e

/-- The directory that a call makes. -/
def made (plan : Plan fingerprint) : Directory :=
  ⟨true, some ⟨true, 0o600, plan.now, plan.pair.key⟩, some ⟨true, 0o600, plan.now, plan.pair.pub⟩⟩

theorem complete_made (plan : Plan fingerprint) : Complete fingerprint (made plan) :=
  ⟨plan.pair, plan.now, plan.now, rfl⟩

/-- What a call should leave: a replacement the new pair, a creation the pair that is there or else the
new one, a deletion no pair, and a read what it found. -/
def intended (plan : Plan fingerprint) (mode : Mode) (before : Option Directory) :
    Option Directory :=
  match mode with
  | .read => before
  | .create => some (before.getD (made plan))
  | .replace => some (made plan)
  | .delete => none

/-- The key directory before and after a call: it is as it was, or as it should be. -/
def AllAtOnce (plan : Plan fingerprint) (mode : Mode) (before after : Option Directory) : Prop :=
  after = before ∨ after = intended plan mode before

/-- The steps before the new directory is renamed. -/
def stepsBefore : List Call :=
  [.parents .create, .mkdtemp, .keyWritten, .pubWritten, .exited, .chmodKey, .chmodPub, .exists,
    .renameOld]

/-- A replacement of a key gets as far as the second rename and not past it. -/
def Exposed (plan : Plan fingerprint) (mode : Mode) (before : Option Directory) : Prop :=
  mode = .replace ∧ before.isSome = true ∧ (∀ c ∈ stepsBefore, plan.outcome c = .done) ∧
    plan.outcome .renameNew ≠ .done

/-- The key directory after a call: between the renames there is none, otherwise the call takes effect
all at once, and when no step fails it takes effect. -/
structure After (plan : Plan fingerprint) (mode : Mode) (before after : Option Directory) :
    Prop where
  exposed : Exposed plan mode before → after = none
  covered : ¬Exposed plan mode before → AllAtOnce plan mode before after
  done : Faultless plan → after = intended plan mode before

theorem whole_intended {plan : Plan fingerprint} (mode : Mode) {before : Option Directory}
    (h : Whole fingerprint before) : Whole fingerprint (intended plan mode before) := by
  cases mode with
  | read => exact h
  | create =>
    cases before with
    | none =>
      intro e he
      cases he
      exact complete_made plan
    | some d => exact h
  | replace =>
    intro e he
    cases he
    exact complete_made plan
  | delete => exact fun e he => absurd he (by simp [intended])

/-- What should be left is what was there, or the pair that was asked for, or nothing. -/
theorem AllAtOnce.cases {plan : Plan fingerprint} {mode : Mode} {before after : Option Directory}
    (h : AllAtOnce plan mode before after) :
    after = before ∨ (mode = .create ∨ mode = .replace) ∧ after = some (made plan) ∨
      mode = .delete ∧ after = none := by
  obtain h | rfl := h
  · exact .inl h
  · cases mode with
    | read => exact .inl rfl
    | create =>
      cases before with
      | none => exact .inr (.inl ⟨.inl rfl, rfl⟩)
      | some d => exact .inl rfl
    | replace => exact .inr (.inl ⟨.inr rfl, rfl⟩)
    | delete => exact .inr (.inr ⟨rfl, rfl⟩)

theorem AllAtOnce.whole {plan : Plan fingerprint} {mode : Mode} {before after : Option Directory}
    (h : AllAtOnce plan mode before after) (hb : Whole fingerprint before) :
    Whole fingerprint after := by
  obtain rfl | rfl := h
  · exact hb
  · exact whole_intended mode hb

end States

/-! ## Creating a pair -/

section Creation

variable {fingerprint : List UInt8 → Option (List UInt8)} {plan : Plan fingerprint} {w : World}

/-- The steps of `fill`. -/
def fillSteps : List Call := [.keyWritten, .pubWritten, .exited, .chmodKey, .chmodPub]

/-- The staged directory is filled exactly when no step of that fails. -/
theorem fill_ends (hstaged : w.staged = some ⟨true, none, none⟩) :
    Program.Ends (fill plan) w fun r u => u.directory = w.directory ∧
      (r = .ok () → u.staged = some (made plan)) ∧
      (r = .ok () ↔ ∀ c ∈ fillSteps, plan.outcome c = .done) := by
  have herror : ∀ c ∈ fillSteps, plan.outcome c ≠ .done → ∀ (e : Ending) (u : World),
      u.directory = w.directory → u.directory = w.directory ∧
        ((.error e : Except Ending Unit) = .ok () → u.staged = some (made plan)) ∧
        ((.error e : Except Ending Unit) = .ok () ↔ ∀ c ∈ fillSteps, plan.outcome c = .done) :=
    fun c hc hne e u hu => ⟨hu, fun h => absurd h (by simp),
      fun h => absurd h (by simp), fun hdone => absurd (hdone c hc) hne⟩
  refine Program.always_bind (act_ends (fun h₁ => ?_) fun hne e =>
    herror _ (by simp [fillSteps]) hne e _ rfl)
  refine Program.always_bind (act_ends (fun h₂ => ?_) fun hne e =>
    herror _ (by simp [fillSteps]) hne e _ rfl)
  refine Program.always_bind (act_ends (fun h₃ => ?_) fun hne e =>
    herror _ (by simp [fillSteps]) hne e _ rfl)
  refine Program.always_bind (act_ends (fun h₄ => ?_) fun hne e =>
    herror _ (by simp [fillSteps]) hne e _ rfl)
  refine act_ends (fun h₅ => ⟨rfl, fun _ => ?_, fun _ => ?_, fun _ => rfl⟩) fun hne e =>
    herror _ (by simp [fillSteps]) hne e _ rfl
  · simp [hstaged, made]
  · simp [fillSteps, h₁, h₂, h₃, h₄, h₅]

/-- The second rename does not get done after the first one. -/
def Between (plan : Plan fingerprint) (w : World) : Prop :=
  w.directory.isSome = true ∧ plan.outcome .exists = .done ∧ plan.outcome .renameOld = .done ∧
    plan.outcome .renameNew ≠ .done

/-- The key directory after an installation: nothing between the renames, otherwise as it was or
new; and new when no step fails. -/
structure Installed (plan : Plan fingerprint) (before : Option Directory) (between : Prop)
    (after : Option Directory) : Prop where
  exposed : between → after = none
  covered : ¬between → after = before ∨ after = some (made plan)
  done : Faultless plan → after = some (made plan)

theorem install_absent (hw : w.directory = none) (hstaged : w.staged = some (made plan)) :
    Leaves plan (install plan) w (Installed plan w.directory (Between plan w)) (· = .ok ()) := by
  have hnot : ¬Between plan w := fun h => absurd h.1 (by simp [hw])
  have hsame : ¬Faultless plan →
      Installed plan w.directory (Between plan w) w.directory ∧
        ∀ r : Except Ending Unit, Faultless plan → r = .ok () := fun hfault =>
    ⟨⟨fun h => absurd h hnot, fun _ => .inl rfl, fun hf => absurd hf hfault⟩,
      fun _ hf => absurd hf hfault⟩
  refine Program.always_inspect_bind (fun found hfound => ?_) fun e he => ?_
  · have hfalse : found = false := by
      rw [directoryExists, hw] at hfound
      split at hfound
      · exact (Except.ok.inj hfound).symm
      · exact (Except.ok.inj hfound).symm
      · cases hfound
    rw [hfalse]
    refine Program.always_bind (Program.always_pure ?_)
    refine Program.always_bind (attempt_ends (fun _ u hu => ?_) fun e he => ?_)
    · rw [hw] at hu
      cases hu
      exact Program.always_pure ⟨⟨fun h => absurd h hnot, fun _ => .inr hstaged, fun _ => hstaged⟩,
        fun _ => rfl⟩
    · have hfault : ¬Faultless plan := fun hf => by
        have h := he (hf _)
        rw [hw] at h
        cases h
      exact ⟨(hsame hfault).1, (hsame hfault).2 _⟩
  · have hfault : ¬Faultless plan := fun hf => by
      rw [directoryExists, hf] at he
      cases he
    exact ⟨(hsame hfault).1, (hsame hfault).2 _⟩

theorem install_present {d : Directory} (hw : w.directory = some d) (hd : Complete fingerprint d)
    (hstaged : w.staged = some (made plan)) :
    Leaves plan (install plan) w (Installed plan w.directory (Between plan w)) (· = .ok ()) := by
  have hfull : (w.directory.all fun d =>
      d.isDirectory && d.key.isNone && d.pub.isNone) = false := by
    obtain ⟨pair, t, t', rfl⟩ := hd
    rw [hw]
    rfl
  -- What stops or fails before the first rename leaves the old pair.
  have hsame : ¬Between plan w → ¬Faultless plan →
      Installed plan w.directory (Between plan w) w.directory := fun hnot hfault =>
    ⟨fun h => absurd h hnot, fun _ => .inl rfl, fun hf => absurd hf hfault⟩
  refine Program.always_inspect_bind (fun found hfound => ?_) fun e he => ?_
  · rw [directoryExists, hw] at hfound
    cases hexists : plan.outcome .exists with
    | stop =>
      rw [hexists] at hfound
      cases hfound
    | fail =>
      -- The old directory is not seen, and the rename onto it fails.
      rw [hexists] at hfound
      cases hfound
      have hnot : ¬Between plan w := fun h => absurd h.2.1 (by simp [hexists])
      have hfault : ¬Faultless plan := fun hf => absurd (hf .exists) (by simp [hexists])
      refine Program.always_bind (Program.always_pure ?_)
      refine Program.always_bind (attempt_ends (fun _ u hu => ?_) fun e he =>
        ⟨hsame hnot hfault, fun hf => absurd hf hfault⟩)
      rw [hfull] at hu
      cases hu
    | done =>
      rw [hexists] at hfound
      cases hfound
      refine Program.always_bind (attempt_ends (fun hold u hu => ?_) fun e he => ?_)
      · rw [hw] at hu
        cases hu
        refine Program.always_bind (attempt_ends (fun hnew u hu => ?_) fun e he => ?_)
        · cases hu
          have hnot : ¬Between plan w := fun h => h.2.2.2 hnew
          refine Program.Always.mono (@removeTree_keeps _ plan _ .retired rfl) (fun _ h => h)
            fun r u hu => ?_
          have hmade : u.directory = some (made plan) := hu.1.trans hstaged
          exact ⟨⟨fun h => absurd h hnot, fun _ => .inr hmade, fun _ => hmade⟩, hu.2⟩
        · have hne : plan.outcome .renameNew ≠ .done := fun h => absurd (he h) (by simp)
          have hbetween : Between plan w := ⟨by rw [hw]; rfl, hexists, hold, hne⟩
          exact ⟨⟨fun _ => rfl, fun h => absurd hbetween h, fun hf => absurd (hf _) hne⟩,
            fun hf => absurd (hf _) hne⟩
      · have hold : plan.outcome .renameOld ≠ .done := fun h => by
          have h' := he h
          rw [hw] at h'
          cases h'
        have hfault : ¬Faultless plan := fun hf => hold (hf _)
        exact ⟨hsame (fun h => hold h.2.2.1) hfault, fun hf => absurd hf hfault⟩
  · have hexists : plan.outcome .exists ≠ .done := fun h => by
      rw [directoryExists, h] at he
      cases he
    have hfault : ¬Faultless plan := fun hf => hexists (hf _)
    exact ⟨hsame (fun h => hexists h.2.1) hfault, fun hf => absurd hf hfault⟩

theorem install_leaves (hw : Whole fingerprint w.directory)
    (hstaged : w.staged = some (made plan)) :
    Leaves plan (install plan) w (Installed plan w.directory (Between plan w)) (· = .ok ()) := by
  cases hd : w.directory with
  | none => exact hd ▸ install_absent hd hstaged
  | some d => exact hd ▸ install_present hd (hw d hd) hstaged

/-- The whole of what is tried once a directory has been staged. -/
theorem fill_install_leaves (hw : Whole fingerprint w.directory)
    (hstaged : w.staged = some ⟨true, none, none⟩) :
    Leaves plan (do
        fill plan
        install plan) w
      (Installed plan w.directory ((∀ c ∈ fillSteps, plan.outcome c = .done) ∧ Between plan w))
      (· = .ok ()) := by
  refine Program.always_bind ((fill_ends hstaged).mono (fun _ h => h) fun r u hu => ?_)
  obtain ⟨hdirectory, hok, hiff⟩ := hu
  cases r with
  | error e =>
    have hnot : ¬∀ c ∈ fillSteps, plan.outcome c = .done := fun h => absurd (hiff.mpr h) (by simp)
    have hfault : ¬Faultless plan := fun hf => hnot fun c _ => hf c
    exact ⟨⟨fun h => absurd h.1 hnot, fun _ => .inl hdirectory, fun hf => absurd hf hfault⟩,
      fun hf => absurd hf hfault⟩
  | ok a =>
    have hbetween : Between plan u ↔ Between plan w := by rw [Between, Between, hdirectory]
    refine (install_leaves (hdirectory ▸ hw) (hok rfl)).mono (fun _ h => h) fun r v hv =>
      ⟨⟨fun h => hv.1.exposed (hbetween.mpr h.2), fun h => ?_, hv.1.done⟩, hv.2⟩
    rw [← hdirectory]
    exact hv.1.covered fun hb => h ⟨hiff.mp rfl, hbetween.mp hb⟩

theorem keyPresent_whole {d : Option Directory} (hd : Whole fingerprint d) :
    keyPresent d = .ok d.isSome := by
  cases d with
  | none => rfl
  | some e =>
    obtain ⟨pair, t, t', rfl⟩ := hd e rfl
    have hprivate : ((0o600 : BitVec 12) &&& 0o077 == 0) = true := by decide
    rw [keyPresent, if_pos rfl]
    show (if (true && _) = true then _ else _) = _
    rw [hprivate]
    rfl

theorem sourceKeyFile_eq (site : Site) (hw : Whole fingerprint w.directory) {present : Bool}
    (h : sourceKeyFile plan site w = .ok present) : present = w.directory.isSome := by
  obtain ⟨_, -, h⟩ := Checks.bind_ok_iff.mp h
  obtain ⟨_, -, h⟩ := Checks.bind_ok_iff.mp h
  rw [keyPresent_whole hw] at h
  exact (Except.ok.inj h).symm

theorem sourceKeyFile_done (site : Site) (hw : Whole fingerprint w.directory)
    (hf : Faultless plan) : sourceKeyFile plan site w = .ok w.directory.isSome := by
  rw [sourceKeyFile, call_done (hf _), call_done (hf _), keyPresent_whole hw]
  rfl

/-- The pair that is created or replaced. -/
theorem createSourceKey_leaves (replace : Bool) (hw : Whole fingerprint w.directory) :
    Leaves plan (createSourceKey plan replace) w
      (After plan (if replace then .replace else .create) w.directory) (· = .ok ()) := by
  -- What stops before the directory is staged leaves the key as it was.
  have hsame : (∃ c ∈ stepsBefore, plan.outcome c ≠ .done) ∨ replace = false →
      (Faultless plan →
        w.directory = intended plan (if replace then .replace else .create) w.directory) →
      After plan (if replace then .replace else .create) w.directory w.directory := by
    refine fun h hdone => ⟨fun hexposed => ?_, fun _ => .inl rfl, hdone⟩
    obtain ⟨c, hc, hne⟩ | rfl := h
    · exact absurd (hexposed.2.2.1 c hc) hne
    · cases hexposed.1
  refine Program.always_inspect_bind (fun _ hparents => ?_) fun e he => ?_
  · have hparents := call_ok_iff.mp hparents
    refine Program.always_inspect_bind (fun present hpresent => ?_) fun e he => ?_
    · show Program.Ends (if present = true then _ else _) w _
      split
      · rename_i htrue
        have hreplace : replace = false := by
          cases replace with
          | false => rfl
          | true => cases htrue ▸ hpresent
        refine Program.always_pure ⟨hsame (.inr hreplace) fun _ => ?_, fun _ => rfl⟩
        subst hreplace
        obtain ⟨d, hd⟩ := Option.isSome_iff_exists.mp
          ((sourceKeyFile_eq .createFile hw hpresent).symm.trans htrue)
        rw [hd]
        rfl
      · rename_i hfalse
        -- A creation gets here only where there is no key.
        have habsent : replace = false → w.directory = none := by
          rintro rfl
          have hsome := sourceKeyFile_eq .createFile hw hpresent
          exact Option.not_isSome_iff_eq_none.mp fun h => hfalse (hsome.trans h)
        have hintended : some (made plan) =
            intended plan (if replace then .replace else .create) w.directory := by
          cases replace with
          | true => rfl
          | false =>
            rw [habsent rfl]
            rfl
        refine Program.always_bind (act_ends (fun htemp => ?_) fun hne e =>
          ⟨hsame (.inl ⟨_, by simp [stepsBefore], hne⟩) fun hf => absurd (hf _) hne,
            fun hf => absurd (hf _) hne⟩)
        have hbody := @fill_install_leaves _ plan
          { w with staged := some ⟨true, none, none⟩ } hw rfl
        refine Program.Always.mono (leaves_finallyDo hbody fun u => removeTreeIgnoring_keeps)
          (fun _ h => h) fun r u hu => ⟨⟨fun hexposed => hu.1.exposed ?_, fun hexposed => ?_,
            fun hf => (hu.1.done hf).trans hintended⟩, hu.2⟩
        · obtain ⟨-, hsome, hdone, hnew⟩ := hexposed
          refine ⟨fun c hc => hdone c ?_, hsome, hdone _ (by simp [stepsBefore]),
            hdone _ (by simp [stepsBefore]), hnew⟩
          exact (by decide : ∀ c ∈ fillSteps, c ∈ stepsBefore) c hc
        · refine (hu.1.covered fun h => ?_).imp_right fun hmade => hmade.trans hintended
          obtain ⟨hfill, hsome, hexists, hold, hnew⟩ := h
          refine hexposed ⟨?_, hsome, ?_, hnew⟩
          · cases replace with
            | true => rfl
            | false => exact absurd hsome (by simp [habsent rfl])
          · simp only [fillSteps, List.forall_mem_cons] at hfill
            simp only [stepsBefore, List.forall_mem_cons]
            exact ⟨hparents, htemp, hfill.1, hfill.2.1, hfill.2.2.1, hfill.2.2.2.1,
              hfill.2.2.2.2.1, hexists, hold, by simp⟩
    · have hreplace : replace = false := by
        cases replace with
        | false => rfl
        | true => cases he
      have hfault : ¬Faultless plan := fun hf => by
        rw [hreplace, if_neg Bool.false_ne_true, sourceKeyFile_done _ hw hf] at he
        cases he
      exact ⟨hsame (.inr hreplace) fun hf => absurd hf hfault, fun hf => absurd hf hfault⟩
  · have hne : plan.outcome (.parents .create) ≠ .done := fun h => by
      rw [call_done h] at he
      cases he
    exact ⟨hsame (.inl ⟨_, by simp [stepsBefore], hne⟩) fun hf => absurd (hf _) hne,
      fun hf => absurd (hf _) hne⟩

/-- The pair that is deleted. -/
theorem removeSourceKey_leaves (hw : Whole fingerprint w.directory) :
    Leaves plan (removeSourceKey plan) w (After plan .delete w.directory) (· = .ok ()) := by
  have hsame : ¬Faultless plan → After plan .delete w.directory w.directory := fun hfault =>
    ⟨fun h => absurd h.1 (by simp), fun _ => .inl rfl, fun hf => absurd hf hfault⟩
  have hgone : ∀ after, after = none → After plan .delete w.directory after := fun after hnone =>
    ⟨fun _ => hnone, fun _ => .inr hnone, fun _ => hnone⟩
  refine Program.always_inspect_bind (fun _ _ => ?_) fun e he => ?_
  · have hfound : ∀ found, directoryFound plan w = .ok found → found = w.directory.isSome := by
      intro found h
      obtain ⟨_, -, h⟩ := Checks.bind_ok_iff.mp h
      cases hd : w.directory with
      | none =>
        rw [hd] at h
        exact (Except.ok.inj h).symm
      | some d =>
        obtain ⟨pair, t, t', rfl⟩ := hw d hd
        rw [hd] at h
        exact (Except.ok.inj h).symm
    refine Program.always_inspect_bind (fun found h => ?_) fun e he => ?_
    · rw [hfound found h]
      cases hd : w.directory with
      | none => exact Program.always_pure ⟨hd ▸ hgone w.directory hd, fun _ => rfl⟩
      | some d =>
        refine Program.always_bind (attempt_ends (fun _ u hu => ?_) fun e he => ?_)
        · rw [hd] at hu
          cases hu
          exact Program.Always.mono (@removeTree_keeps _ plan _ .retired rfl) (fun _ h => h)
            fun r u hu => ⟨hd ▸ hgone u.directory hu.1, hu.2⟩
        · have hfault : ¬Faultless plan := fun hf => by
            have h' := he (hf _)
            rw [hd] at h'
            cases h'
          exact ⟨hd ▸ hsame hfault, fun hf => absurd hf hfault⟩
    · have hfault : ¬Faultless plan := fun hf => by
        rw [directoryFound, call_done (hf _)] at he
        cases hd : w.directory with
        | none =>
          rw [hd] at he
          cases he
        | some d =>
          obtain ⟨pair, t, t', rfl⟩ := hw d hd
          rw [hd] at he
          cases he
      exact ⟨hsame hfault, fun hf => absurd hf hfault⟩
  · have hfault : ¬Faultless plan := fun hf => by
      rw [call_done (hf _)] at he
      cases he
    exact ⟨hsame hfault, fun hf => absurd hf hfault⟩

end Creation

/-! ## Whole calls -/

section Calls

variable {fingerprint : List UInt8 → Option (List UInt8)} {plan : Plan fingerprint} {w : World}

theorem After.whole {mode : Mode} {before after : Option Directory}
    (h : After plan mode before after) (hb : Whole fingerprint before) :
    Whole fingerprint after := by
  by_cases hexposed : Exposed plan mode before
  · rw [h.exposed hexposed]
    exact fun e he => absurd he (by simp)
  · exact (h.covered hexposed).whole hb

/-- A call takes effect all at once exactly when it is not exposed. -/
theorem After.allAtOnce_iff {mode : Mode} {before after : Option Directory}
    (h : After plan mode before after) :
    AllAtOnce plan mode before after ↔ ¬Exposed plan mode before := by
  refine ⟨fun hall hexposed => ?_, h.covered⟩
  have hnone := h.exposed hexposed
  obtain ⟨rfl, hsome, -, -⟩ := hexposed
  obtain rfl | hmade := hall
  · rw [hnone] at hsome
    cases hsome
  · rw [hnone] at hmade
    cases hmade

theorem change_leaves (mode : Mode) (hw : Whole fingerprint w.directory) :
    Leaves plan (change plan mode) w (After plan mode w.directory) (· = .ok ()) := by
  cases mode with
  | read =>
    exact Program.always_pure
      ⟨⟨fun h => absurd h.1 (by simp), fun _ => .inl rfl, fun _ => rfl⟩, fun _ => rfl⟩
  | create => exact createSourceKey_leaves false hw
  | replace => exact createSourceKey_leaves true hw
  | delete => exact removeSourceKey_leaves hw

/-- What is in the public file of a pair is read. -/
theorem publicKeyOf_pair (pair : KeyPair fingerprint) (mtime : Int) :
    ∃ key, publicKeyOf fingerprint ⟨true, 0o600, mtime, pair.pub⟩ = .ok key := by
  obtain ⟨hlength, hascii, blob, comment, print, hwords, hprint⟩ := pair.isPublicText
  refine ⟨⟨keyType ++ 32 :: blob, print, mtime⟩, ?_⟩
  simp only [publicKeyOf, List.take_of_length_le hlength, hascii, hwords, hprint, if_true]

theorem sourcePublicKey_done (hw : Whole fingerprint w.directory) (hf : Faultless plan) :
    ∃ reply, sourcePublicKey plan w = .ok reply ∧ reply.isSome = w.directory.isSome := by
  rw [sourcePublicKey, sourceKeyFile_done _ hw hf]
  cases hd : w.directory with
  | none => exact ⟨none, rfl, rfl⟩
  | some d =>
    obtain ⟨pair, t, t', rfl⟩ := hw d hd
    obtain ⟨key, hkey⟩ := publicKeyOf_pair pair t'
    have hread : readPublic plan ⟨true, 0o600, t', pair.pub⟩ = .ok ⟨true, 0o600, t', pair.pub⟩ := by
      rw [readPublic, call_done (hf _), call_done (hf _), if_pos (by simp [pair.isPublicText.1])]
      rfl
    have hclose : closing plan (readPublic plan ⟨true, 0o600, t', pair.pub⟩) =
        .ok ⟨true, 0o600, t', pair.pub⟩ := by
      rw [hread, closing.eq_def, call_done (hf _)]
      rfl
    refine ⟨some key, ?_, rfl⟩
    rw [call_done (hf _), call_done (hf _)]
    show (do
      let file ← closing plan (readPublic plan ⟨true, 0o600, t', pair.pub⟩)
      let key ← publicKeyOf fingerprint file
      .ok (some key)) = _
    rw [hclose]
    show (do
      let key ← publicKeyOf fingerprint ⟨true, 0o600, t', pair.pub⟩
      .ok (some key)) = _
    rw [hkey]
    rfl

/-- What one call does. -/
theorem sourceKey_ends (mode : Mode) (hw : Whole fingerprint w.directory) :
    Program.Ends (sourceKey plan mode) w fun r u =>
      After plan mode w.directory u.directory ∧ Whole fingerprint u.directory ∧
        (Faultless plan → ∃ reply, r = .ok reply ∧ reply.isSome = u.directory.isSome) := by
  refine Program.always_bind (Program.always_commit_of_ok rfl trivial ?_)
  refine Program.always_bind (Program.Always.mono (@change_leaves _ plan w.begin mode hw)
    (fun _ h => h) fun r u hu => ?_)
  have hwhole := hu.1.whole hw
  cases r with
  | ok a => exact Program.always_inspect ⟨hu.1, hwhole, fun hf => sourcePublicKey_done hwhole hf⟩
  | error e => exact ⟨hu.1, hwhole, fun hf => absurd (hu.2 hf) (by simp)⟩

/-- A call, with what happens in it. -/
structure Invocation (fingerprint : List UInt8 → Option (List UInt8)) where
  mode : Mode
  plan : Plan fingerprint

/-- What a call leaves, also where it fails or the process stops. -/
def next (w : World) (call : Invocation fingerprint) : World :=
  ((sourceKey call.plan call.mode).run w).final w

/-- One call. -/
def Step (w : World) (call : Invocation fingerprint) (w' : World) : Prop := w' = next w call

/-- The call is not exposed in the state before it. -/
def Covered (w : World) (call : Invocation fingerprint) : Prop :=
  ¬Exposed call.plan call.mode w.directory

/-- A call of any mode takes effect when no step of it fails: the key directory is as it should be, and
the call returns and tells the key if there is one. -/
structure Usable (fingerprint : List UInt8 → Option (List UInt8)) (w : World) : Prop where
  effect : ∀ call : Invocation fingerprint, Faultless call.plan →
    (next w call).directory = intended call.plan call.mode w.directory
  reply : ∀ call : Invocation fingerprint, Faultless call.plan →
    ∃ reply, ((sourceKey call.plan call.mode).run w).result = .ok reply ∧
      reply.isSome = (intended call.plan call.mode w.directory).isSome

theorem next_after (hw : Whole fingerprint w.directory) (call : Invocation fingerprint) :
    After call.plan call.mode w.directory (next w call).directory :=
  (sourceKey_ends call.mode hw).2.1

theorem next_whole (hw : Whole fingerprint w.directory) (call : Invocation fingerprint) :
    Whole fingerprint (next w call).directory :=
  (sourceKey_ends call.mode hw).2.2.1

theorem usable_of_whole (hw : Whole fingerprint w.directory) : Usable fingerprint w := by
  have heffect : ∀ call : Invocation fingerprint, Faultless call.plan →
      (next w call).directory = intended call.plan call.mode w.directory :=
    fun call hf => (next_after hw call).done hf
  refine ⟨heffect, fun call hf => ?_⟩
  obtain ⟨reply, hreply, hsome⟩ := (sourceKey_ends call.mode hw).2.2.2 hf
  exact ⟨reply, hreply, hsome.trans (congrArg Option.isSome (heffect call hf))⟩

/-- After any calls there is no key or a complete pair. -/
theorem whole_of_run {w' : World} {calls : List (Invocation fingerprint)}
    (h : Run Step w calls w') (hw : Whole fingerprint w.directory) :
    Whole fingerprint w'.directory := by
  refine h.invariant (I := fun t => Whole fingerprint t.directory) hw fun t call u ht hstep => ?_
  rw [hstep]
  exact next_whole ht call

/-- After calls that are covered, the key directory is as it was before them or holds the pair that
one of them made, and it is absent only where it was or where a deletion was asked for. -/
theorem covered_run {w' : World} {calls : List (Invocation fingerprint)}
    (h : Run (restrict Step Covered) w calls w') (hw : Whole fingerprint w.directory) :
    (∀ d, w'.directory = some d → w.directory = some d ∨
      ∃ call ∈ calls, d = made call.plan ∧ (call.mode = .create ∨ call.mode = .replace)) ∧
    (w'.directory = none → w.directory = none ∨ ∃ call ∈ calls, call.mode = .delete) := by
  induction h with
  | nil => exact ⟨fun d hd => .inl hd, fun hd => .inl hd⟩
  | @snoc calls t u call hrun hstep ih =>
    obtain ⟨hsome, hnone⟩ := ih
    obtain ⟨rfl, hcovered⟩ := hstep
    have hwhole := whole_of_run hrun.of_restrict hw
    have hlast : call ∈ calls ++ [call] := List.mem_append_right _ (List.mem_singleton_self call)
    have hearlier : ∀ c ∈ calls, c ∈ calls ++ [call] := fun c hc => List.mem_append_left _ hc
    obtain hsame | ⟨hmode, hmade⟩ | ⟨hmode, hgone⟩ :=
      ((next_after hwhole call).covered hcovered).cases
    · rw [hsame]
      refine ⟨fun d hd => (hsome d hd).imp_right ?_, fun hd => (hnone hd).imp_right ?_⟩
      · rintro ⟨c, hc, h⟩
        exact ⟨c, hearlier c hc, h⟩
      · rintro ⟨c, hc, h⟩
        exact ⟨c, hearlier c hc, h⟩
    · rw [hmade]
      exact ⟨fun d hd => .inr ⟨call, hlast, (Option.some.inj hd).symm, hmode⟩,
        fun h => absurd h (by simp)⟩
    · rw [hgone]
      exact ⟨fun d hd => absurd hd (by simp), fun _ => .inr ⟨call, hlast, hmode⟩⟩

/-- **Deploy keys.**  A call takes effect all at once exactly when it does not stop or fail between the
two renames of a replacement: the key directory is as it was or as it should be.  After any calls
whatsoever there is no key or a complete pair, and a call of any mode that meets no failure leaves
what it should: a replacement and a creation without a key the new pair, a creation with a key and a
read the pair that is there, a deletion none.  After calls that are not interrupted between the
renames the key is gone only where a deletion was asked for. -/
theorem sourceKey_allAtOnce (fingerprint : List UInt8 → Option (List UInt8)) (w : World)
    (hw : Whole fingerprint w.directory) :
    (∀ (calls : List (Invocation fingerprint)) (w' : World), Run Step w calls w' →
      Whole fingerprint w'.directory ∧ Usable fingerprint w' ∧
      ∀ call : Invocation fingerprint,
        AllAtOnce call.plan call.mode w'.directory (next w' call).directory ↔ Covered w' call) ∧
    ∀ (calls : List (Invocation fingerprint)) (w' : World),
      Run (restrict Step Covered) w calls w' →
      (∀ d, w'.directory = some d → w.directory = some d ∨
        ∃ call ∈ calls, d = made call.plan ∧ (call.mode = .create ∨ call.mode = .replace)) ∧
      (w'.directory = none → w.directory = none ∨ ∃ call ∈ calls, call.mode = .delete) := by
  refine ⟨fun calls w' hrun => ?_, fun calls w' hrun => covered_run hrun hw⟩
  have hwhole := whole_of_run hrun hw
  exact ⟨hwhole, usable_of_whole hwhole, fun call => (next_after hwhole call).allAtOnce_iff⟩

end Calls

/-! ## A replacement that is interrupted -/

/-- A text of ASCII characters as bytes. -/
def ascii (s : String) : List UInt8 := s.toList.map fun c => c.toNat.toUInt8

/-- A public key in base64. -/
def sampleBlob : List UInt8 :=
  ascii "AAAAC3NzaC1lZDI1NTE5AAAAIAOhB7/zzhC+HXDdGOdLwJln5NYwm6UNXx3chmQSVTG4"

/-- The hash of the key in base64. -/
def sampleFingerprint (_ : List UInt8) : Option (List UInt8) :=
  some (ascii "lbmsoA0yIEcEiVDRnMWuzm+nV+3ZEEpVIURqFoeSspg")

/-- The public file. -/
def samplePub : List UInt8 := keyType ++ 32 :: sampleBlob ++ ascii " paas notes deploy key\n"

theorem isPublicText_sample : IsPublicText sampleFingerprint samplePub :=
  ⟨by decide +kernel, by decide +kernel, sampleBlob, [ascii "paas", ascii "notes", ascii "deploy",
    ascii "key"], _, by decide +kernel, rfl⟩

def samplePair : KeyPair sampleFingerprint := ⟨ascii "private", samplePub, isPublicText_sample⟩

/-- Every step is done up to the second rename, at which the process stops. -/
def samplePlan : Plan sampleFingerprint where
  outcome
    | .renameNew => .stop
    | _ => .done
  pair := samplePair
  now := 2
  keyFirst := true

/-- An application with a key. -/
def sampleWorld : World :=
  ⟨some ⟨true, some ⟨true, 0o600, 1, samplePair.key⟩, some ⟨true, 0o600, 1, samplePair.pub⟩⟩,
    none, none, []⟩

theorem whole_sample : Whole sampleFingerprint sampleWorld.directory := by
  intro e he
  cases he
  exact ⟨samplePair, 1, 1, rfl⟩

theorem exposed_sample : Exposed samplePlan .replace sampleWorld.directory :=
  ⟨rfl, rfl, by simp [stepsBefore, samplePlan], by simp [samplePlan]⟩

/-- The application has lost its key. -/
theorem replace_stopped :
    Whole sampleFingerprint sampleWorld.directory ∧ sampleWorld.directory.isSome = true ∧
      (next sampleWorld ⟨.replace, samplePlan⟩).directory = none ∧
      ¬AllAtOnce samplePlan .replace sampleWorld.directory
        (next sampleWorld ⟨.replace, samplePlan⟩).directory := by
  have hafter := next_after whole_sample ⟨.replace, samplePlan⟩
  exact ⟨whole_sample, rfl, hafter.exposed exposed_sample,
    fun h => hafter.allAtOnce_iff.mp h exposed_sample⟩

/-- A plan in which no step fails. -/
def faultlessPlan : Plan sampleFingerprint where
  outcome _ := .done
  pair := samplePair
  now := 3
  keyFirst := false

/-- After the interrupted replacement the application is still served: a later creation makes the pair
and a deletion removes it; and a deletion of the first pair is a covered call. -/
theorem sourceKey_allAtOnce_sample :
    (next (next sampleWorld ⟨.replace, samplePlan⟩) ⟨.create, faultlessPlan⟩).directory =
        some (made faultlessPlan) ∧
      (next (next sampleWorld ⟨.replace, samplePlan⟩) ⟨.delete, faultlessPlan⟩).directory = none ∧
      ((next sampleWorld ⟨.delete, samplePlan⟩).directory = none → sampleWorld.directory = none ∨
        ∃ call ∈ [(⟨.delete, samplePlan⟩ : Invocation sampleFingerprint)],
          call.mode = .delete) := by
  have h := sourceKey_allAtOnce sampleFingerprint sampleWorld whole_sample
  have husable := (h.1 [⟨.replace, samplePlan⟩] _ (Run.cons rfl .nil)).2.1
  have hnone : (next sampleWorld ⟨.replace, samplePlan⟩).directory = none :=
    (next_after whole_sample ⟨.replace, samplePlan⟩).exposed exposed_sample
  refine ⟨?_, husable.effect ⟨.delete, faultlessPlan⟩ fun _ => rfl, ?_⟩
  · rw [husable.effect ⟨.create, faultlessPlan⟩ fun _ => rfl, hnone]
    rfl
  · exact (h.2 [⟨.delete, samplePlan⟩] _
      (Run.cons ⟨rfl, fun hexposed => absurd hexposed.1 (by simp)⟩ .nil)).2

end SourceKeys
end Helper
end OpenstackPlatform
