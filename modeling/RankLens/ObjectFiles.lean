import RankLens.Deployment

namespace RankLens

def ObjectKey.digest : ObjectKey → String
  | .segment _ _ digest => digest
  | .report _ _ _ digest _ => digest

namespace ObjectFiles

/-- A name under the root: an object, or the temporary name `mkstemp` chose for an inode. -/
inductive FileName where
  | object (key : ObjectKey)
  | temporary (inode : Nat)
deriving DecidableEq, Repr

/-- The files under the root. `linked` are the names an inode has had. -/
structure Files where
  content : Nat → Bytes
  synced : Nat → Bool
  entry : FileName → Option Nat
  linked : List (FileName × Nat)
  next : Nat

theorem object_ne_temporary {key : ObjectKey} {i : Nat} :
    FileName.object key ≠ .temporary i := by
  rintro ⟨⟩

namespace Files

def empty : Files := ⟨fun _ => [], fun _ => false, fun _ => none, [], 0⟩

def mkstemp (f : Files) : Files :=
  { content := Function.update f.content f.next []
    synced := Function.update f.synced f.next false
    entry := Function.update f.entry (.temporary f.next) (some f.next)
    linked := (.temporary f.next, f.next) :: f.linked
    next := f.next + 1 }

def write (f : Files) (i : Nat) (chunk : Bytes) : Files :=
  { f with content := Function.update f.content i (f.content i ++ chunk) }

def fsync (f : Files) (i : Nat) : Files :=
  { f with synced := Function.update f.synced i true }

def unlink (f : Files) (name : FileName) : Files :=
  { f with entry := Function.update f.entry name none }

/-- `os.replace` of a name of the inode. -/
def replace (f : Files) (i : Nat) (source target : FileName) : Files :=
  { f with
    entry := Function.update (Function.update f.entry source none) target (some i)
    linked := (target, i) :: f.linked }

@[simp] theorem content_write (f : Files) (i : Nat) (chunk : Bytes) :
    (f.write i chunk).content = Function.update f.content i (f.content i ++ chunk) := rfl

@[simp] theorem entry_mkstemp (f : Files) : f.mkstemp.entry =
    Function.update f.entry (.temporary f.next) (some f.next) := rfl

@[simp] theorem entry_unlink (f : Files) (name : FileName) :
    (f.unlink name).entry = Function.update f.entry name none := rfl

@[simp] theorem entry_replace (f : Files) (i : Nat) (source target : FileName) :
    (f.replace i source target).entry =
      Function.update (Function.update f.entry source none) target (some i) := rfl

/-- What a power loss may leave: of an inode that was not synced anything, and of
a name nothing or any inode it once had, whether or not its directory was synced. -/
structure Survives (f f' : Files) : Prop where
  content : ∀ i, f.synced i = true → f'.content i = f.content i
  synced : f'.synced = f.synced
  entry : ∀ name i, f'.entry name = some i → (name, i) ∈ f.linked
  linked : f'.linked = f.linked
  next : f'.next = f.next

def objects (f : Files) : ObjectStore := fun key => (f.entry (.object key)).map f.content

end Files

/-- `read_bytes` opens a name and reads on until the file ends. -/
inductive ReadStage where
  | opening
  | reading (inode : Nat) (got : Bytes)

inductive ReadStep (f : Files) (name : FileName) :
    ReadStage → ReadStage ⊕ Except String Bytes → Prop where
  | opened {i : Nat} (h : f.entry name = some i) : ReadStep f name .opening (.inl (.reading i []))
  | missing (h : f.entry name = none) : ReadStep f name .opening (.inr (.error "no such file"))
  | chunk {i : Nat} {got : Bytes} (n : Nat) : ReadStep f name (.reading i got)
      (.inl (.reading i (got ++ ((f.content i).drop got.length).take n)))
  | finished {i : Nat} {got : Bytes} (h : (f.content i).length ≤ got.length) :
      ReadStep f name (.reading i got) (.inr (.ok got))
  | failed {stage : ReadStage} (e : String) : ReadStep f name stage (.inr (.error e))

/-- Where a call of `put_verified` is, `exists_verified` within it. -/
inductive PutStage where
  | exists
  | checking (stage : ReadStage)
  | making
  | writing (inode : Nat) (rest : Bytes)
  | verifying (inode : Nat) (stage : ReadStage)
  | replacing (inode : Nat)
  | syncingDirectory (inode : Nat)
  | cleaning (inode : Nat) (outcome : Except Failure Unit)

def PutStage.inode : PutStage → Option Nat
  | .writing i _ => some i
  | .verifying i _ => some i
  | .replacing i => some i
  | .syncingDirectory i => some i
  | .cleaning i _ => some i
  | _ => none

def PutStage.guarded : PutStage → Option Nat
  | .cleaning _ _ => none
  | stage => stage.inode

variable (digest : Bytes → String)

inductive PutStep (key : ObjectKey) (payload : Bytes) (sha256 : String) (f : Files) :
    PutStage → Files → PutStage ⊕ Except Failure Unit → Prop where
  | present (h : f.entry (.object key) ≠ none) :
      PutStep key payload sha256 f .exists f (.inl (.checking .opening))
  | absent (h : f.entry (.object key) = none) :
      PutStep key payload sha256 f .exists f (.inl .making)
  | check {s s' : ReadStage} (h : ReadStep f (.object key) s (.inl s')) :
      PutStep key payload sha256 f (.checking s) f (.inl (.checking s'))
  | unreadable {s : ReadStage} {e : String} (h : ReadStep f (.object key) s (.inr (.error e))) :
      PutStep key payload sha256 f (.checking s) f
        (.inr (.error (.objectIntegrity ("cannot verify existing object: " ++ e))))
  | mismatched {s : ReadStage} {found : Bytes} (h : ReadStep f (.object key) s (.inr (.ok found)))
      (hd : digest found ≠ sha256) : PutStep key payload sha256 f (.checking s) f
        (.inr (.error
          (.objectIntegrity "existing object digest does not match its content key")))
  | found {s : ReadStage} {found : Bytes} (h : ReadStep f (.object key) s (.inr (.ok found)))
      (hd : digest found = sha256) : PutStep key payload sha256 f (.checking s) f (.inr (.ok ()))
  | made : PutStep key payload sha256 f .making f.mkstemp (.inl (.writing f.next payload))
  | unmade (e : String) :
      PutStep key payload sha256 f .making f (.inr (.error (.osError e)))
  | wrote {i : Nat} {rest : Bytes} (n : Nat) : PutStep key payload sha256 f (.writing i rest)
      (f.write i (rest.take n)) (.inl (.writing i (rest.drop n)))
  | synced {i : Nat} :
      PutStep key payload sha256 f (.writing i []) (f.fsync i) (.inl (.verifying i .opening))
  | verify {i : Nat} {s s' : ReadStage} (h : ReadStep f (.temporary i) s (.inl s')) :
      PutStep key payload sha256 f (.verifying i s) f (.inl (.verifying i s'))
  | corrupted {i : Nat} {s : ReadStage} {found : Bytes}
      (h : ReadStep f (.temporary i) s (.inr (.ok found))) (hd : digest found ≠ sha256) :
      PutStep key payload sha256 f (.verifying i s) f (.inl (.cleaning i
        (.error (.objectIntegrity "temporary object failed checksum verification"))))
  | verified {i : Nat} {s : ReadStage} {found : Bytes}
      (h : ReadStep f (.temporary i) s (.inr (.ok found))) (hd : digest found = sha256) :
      PutStep key payload sha256 f (.verifying i s) f (.inl (.replacing i))
  | replaced {i j : Nat} (h : f.entry (.temporary i) = some j) :
      PutStep key payload sha256 f (.replacing i) (f.replace j (.temporary i) (.object key))
        (.inl (.syncingDirectory i))
  | syncedDirectory {i : Nat} :
      PutStep key payload sha256 f (.syncingDirectory i) f (.inl (.cleaning i (.ok ())))
  -- any `OSError` inside the `try` block
  | failed {i : Nat} {stage : PutStage} (e : String) (h : stage.guarded = some i) :
      PutStep key payload sha256 f stage f (.inl (.cleaning i (.error (.osError e))))
  | cleaned {i : Nat} {outcome : Except Failure Unit} :
      PutStep key payload sha256 f (.cleaning i outcome) (f.unlink (.temporary i)) (.inr outcome)
  | uncleaned {i : Nat} {outcome : Except Failure Unit} (e : String)
      (h : f.entry (.temporary i) ≠ none) :
      PutStep key payload sha256 f (.cleaning i outcome) f (.inr (.error (.osError e)))

inductive DeleteStage where
  | exists
  | checking (stage : ReadStage)
  | unlinking
  | syncingDirectory

/-- One system call of `delete_verified`. -/
inductive DeleteStep (key : ObjectKey) (sha256 : String) (f : Files) :
    DeleteStage → Files → DeleteStage ⊕ Except Failure Bool → Prop where
  | absent (h : f.entry (.object key) = none) : DeleteStep key sha256 f .exists f (.inr (.ok false))
  | present (h : f.entry (.object key) ≠ none) :
      DeleteStep key sha256 f .exists f (.inl (.checking .opening))
  | check {s s' : ReadStage} (h : ReadStep f (.object key) s (.inl s')) :
      DeleteStep key sha256 f (.checking s) f (.inl (.checking s'))
  | unreadable {s : ReadStage} {e : String} (h : ReadStep f (.object key) s (.inr (.error e))) :
      DeleteStep key sha256 f (.checking s) f
        (.inr (.error (.objectIntegrity ("cannot verify object before deletion: " ++ e))))
  | mismatched {s : ReadStage} {found : Bytes} (h : ReadStep f (.object key) s (.inr (.ok found)))
      (hd : digest found ≠ sha256) : DeleteStep key sha256 f (.checking s) f
        (.inr (.error
          (.objectIntegrity "object scheduled for deletion failed checksum verification")))
  | verified {s : ReadStage} {found : Bytes} (h : ReadStep f (.object key) s (.inr (.ok found)))
      (hd : digest found = sha256) :
      DeleteStep key sha256 f (.checking s) f (.inl .unlinking)
  | unlinked (h : f.entry (.object key) ≠ none) :
      DeleteStep key sha256 f .unlinking (f.unlink (.object key)) (.inl .syncingDirectory)
  | failed {stage : DeleteStage} (e : String)
      (h : stage = .unlinking ∨ stage = .syncingDirectory) : DeleteStep key sha256 f stage f
        (.inr (.error (.objectIntegrity ("cannot delete verified object: " ++ e))))
  | syncedDirectory : DeleteStep key sha256 f .syncingDirectory f (.inr (.ok true))

/-- How `read_verified` answers what `read_bytes` returned. -/
def verdict (sha256 : String) : Except String Bytes → Except Failure Bytes
  | .error e => .error (.objectIntegrity ("cannot read object: " ++ e))
  | .ok payload =>
    if digest payload ≠ sha256 then
      .error (.objectIntegrity "stored object failed checksum verification")
    else .ok payload

inductive Outcome where
  | put (key : ObjectKey) (result : Except Failure Unit)
  | deleted (key : ObjectKey) (result : Except Failure Bool)
  | read (key : ObjectKey) (result : Except Failure Bytes)

inductive Process where
  | idle
  | putting (key : ObjectKey) (payload : Bytes) (stage : PutStage)
  | deleting (key : ObjectKey) (stage : DeleteStage)
  | reading (key : ObjectKey) (stage : ReadStage)
  | returned (outcome : Outcome)

/-- How a call begins. Every caller passes the digest its key is made of. -/
inductive Begins : Process → Prop where
  | put {key : ObjectKey} {payload : Bytes} (h : digest payload = key.digest) :
      Begins (.putting key payload .exists)
  | mismatched {key : ObjectKey} {payload : Bytes} (h : digest payload ≠ key.digest) :
      Begins (.returned (.put key (.error (.objectIntegrity "payload digest mismatch"))))
  | delete {key : ObjectKey} : Begins (.deleting key .exists)
  | read {key : ObjectKey} : Begins (.reading key .opening)

def putting (key : ObjectKey) (payload : Bytes) : PutStage ⊕ Except Failure Unit → Process
  | .inl stage => .putting key payload stage
  | .inr result => .returned (.put key result)

def deleting (key : ObjectKey) : DeleteStage ⊕ Except Failure Bool → Process
  | .inl stage => .deleting key stage
  | .inr result => .returned (.deleted key result)

def reading (key : ObjectKey) : ReadStage ⊕ Except String Bytes → Process
  | .inl stage => .reading key stage
  | .inr result => .returned (.read key (verdict digest key.digest result))

inductive Advances (f : Files) : Process → Files → Process → Prop where
  | put {key : ObjectKey} {payload : Bytes} {stage : PutStage} {f' : Files}
      {result : PutStage ⊕ Except Failure Unit}
      (h : PutStep digest key payload key.digest f stage f' result) :
      Advances f (.putting key payload stage) f' (putting key payload result)
  | delete {key : ObjectKey} {stage : DeleteStage} {f' : Files}
      {result : DeleteStage ⊕ Except Failure Bool}
      (h : DeleteStep digest key key.digest f stage f' result) :
      Advances f (.deleting key stage) f' (deleting key result)
  | read {key : ObjectKey} {stage : ReadStage} {result : ReadStage ⊕ Except String Bytes}
      (h : ReadStep f (.object key) stage result) :
      Advances f (.reading key stage) f (reading digest key result)

/-- Any number of processes over the files. -/
structure System where
  files : Files
  processes : Nat → Process

def System.initial : System := ⟨.empty, fun _ => .idle⟩

def System.set (s : System) (pid : Nat) (f : Files) (p : Process) : System :=
  ⟨f, Function.update s.processes pid p⟩

@[simp] theorem System.processes_set (s : System) (pid : Nat) (f : Files) (p : Process) :
    (s.set pid f p).processes = Function.update s.processes pid p := rfl

inductive Event where
  | call (pid : Nat)
  | system (pid : Nat)
  | powerLoss

inductive Step (s : System) : Event → System → Prop where
  -- in the place of a call that is under way: its process was killed and started again
  | call {p : Process} (pid : Nat) (h : Begins digest p) : Step s (.call pid) (s.set pid s.files p)
  | advance {f : Files} {p : Process} (pid : Nat)
      (h : Advances digest s.files (s.processes pid) f p) : Step s (.system pid) (s.set pid f p)
  | powerLoss {f : Files} (h : s.files.Survives f) : Step s .powerLoss ⟨f, fun _ => .idle⟩

inductive Run : System → Prop where
  | initial : Run .initial
  | step {s s' : System} {e : Event} (h : Run s) (hs : Step digest s e s') : Run s'

/-- The state came about after `s₀`, since when the process has begun no other call. -/
inductive Since (pid : Nat) (s₀ : System) : System → Prop where
  | here : Since pid s₀ s₀
  | step {s s' : System} {e : Event} (h : Since pid s₀ s) (hs : Step digest s e s')
      (he : e ≠ .call pid) (hp : e ≠ .powerLoss) : Since pid s₀ s'

section soundness

variable {digest} {f f' : Files} {name : FileName} {s s' : ReadStage} {P : Nat → Prop}
  {found payload : Bytes} {key : ObjectKey} {own : Option Nat} {i : Nat}

/-- Every object a name ever led to is complete, on the disk and what its key says. -/
structure Files.Sound (digest : Bytes → String) (f : Files) : Prop where
  objects : ∀ key i, (.object key, i) ∈ f.linked →
    digest (f.content i) = key.digest ∧ f.synced i = true
  entries : ∀ name i, f.entry name = some i → (name, i) ∈ f.linked
  fresh : ∀ name i, (name, i) ∈ f.linked → i < f.next
  temporaries : ∀ i j, (.temporary i, j) ∈ f.linked → j = i

def Published (f : Files) (i : Nat) : Prop := ∃ key, (.object key, i) ∈ f.linked

/-- An inode that no name of an object has led to yet. -/
structure Hidden (f : Files) (i : Nat) : Prop where
  fresh : i < f.next
  unpublished : ¬Published f i

/-- What a step with an inode of its own leaves alone. -/
structure Frame (own : Option Nat) (f f' : Files) : Prop where
  next : f.next ≤ f'.next
  content : ∀ j < f.next, own ≠ some j ∨ Published f j →
    f'.content j = f.content j ∧ f'.synced j = f.synced j
  linked : ∀ l ∈ f.linked, l ∈ f'.linked
  published : ∀ j < f.next, Published f' j → Published f j ∨ own = some j

theorem Frame.refl : Frame own f f :=
  ⟨Nat.le_refl _, fun _ _ _ => ⟨rfl, rfl⟩, fun _ h => h, fun _ _ h => Or.inl h⟩

theorem Frame.unlink : Frame own f (f.unlink name) :=
  ⟨Nat.le_refl _, fun _ _ _ => ⟨rfl, rfl⟩, fun _ h => h, fun _ _ h => Or.inl h⟩

/-- A reader is at an inode of `P` and has read a part of it. -/
def ReadStage.Sound (f : Files) (P : Nat → Prop) : ReadStage → Prop
  | .opening => True
  | .reading i got => P i ∧ got <+: f.content i

theorem ReadStep.sound (hs : s.Sound f P) (hname : ∀ i, f.entry name = some i → P i)
    (h : ReadStep f name s (.inl s')) : s'.Sound f P := by
  cases h with
  | opened hentry => exact ⟨hname _ hentry, List.nil_prefix⟩
  | @chunk i got n =>
    obtain ⟨hi, rest, hrest⟩ := hs
    refine ⟨hi, rest.drop n, ?_⟩
    rw [← hrest, List.drop_left, List.append_assoc, List.take_append_drop]

theorem ReadStep.whole (hs : s.Sound f P) (h : ReadStep f name s (.inr (.ok found))) :
    ∃ i, P i ∧ found = f.content i := by
  cases h with
  | @finished i got hlength =>
    obtain ⟨hi, hgot⟩ := hs
    exact ⟨i, hi, hgot.eq_of_length_le hlength⟩

theorem ReadStage.Sound.frame {P' : Nat → Prop} (hs : s.Sound f P)
    (h : ∀ i, P i → P' i ∧ f'.content i = f.content i) : s.Sound f' P' := by
  cases s with
  | opening => trivial
  | reading i got =>
    obtain ⟨hi, hgot⟩ := hs
    obtain ⟨hi', hcontent⟩ := h i hi
    exact ⟨hi', hcontent ▸ hgot⟩

/-- The failure of a checksum that was recorded or written by the store itself. -/
def corruption : Failure → Prop
  | .objectIntegrity message => message = "existing object digest does not match its content key" ∨
      message = "temporary object failed checksum verification" ∨
      message = "object scheduled for deletion failed checksum verification" ∨
      message = "stored object failed checksum verification"
  | _ => False

/-- What an answer says is so. -/
def Outcome.Honest (digest : Bytes → String) (f : Files) : Outcome → Prop
  | .put key (.ok ()) => ∃ i, (.object key, i) ∈ f.linked
  | .put _ (.error e) => ¬corruption e
  | .deleted _ (.ok _) => True
  | .deleted _ (.error e) => ¬corruption e
  | .read key (.ok payload) => digest payload = key.digest
  | .read _ (.error e) => ¬corruption e

def PutStage.Sound (digest : Bytes → String) (f : Files) (key : ObjectKey) (payload : Bytes) :
    PutStage → Prop
  | .exists => True
  | .checking s => s.Sound f (fun i => (.object key, i) ∈ f.linked)
  | .making => True
  | .writing i rest => Hidden f i ∧ f.content i ++ rest = payload
  | .verifying i s => Hidden f i ∧ f.content i = payload ∧ f.synced i = true ∧ s.Sound f (· = i)
  | .replacing i => Hidden f i ∧ f.content i = payload ∧ f.synced i = true
  | .syncingDirectory i => (.object key, i) ∈ f.linked
  | .cleaning _ outcome => (Outcome.put key outcome).Honest digest f

/-- The inode only this call writes to. -/
def PutStage.owns : PutStage → Option Nat
  | .writing i _ => some i
  | .verifying i _ => some i
  | .replacing i => some i
  | _ => none

def DeleteStage.Sound (f : Files) (key : ObjectKey) : DeleteStage → Prop
  | .checking s => s.Sound f (fun i => (.object key, i) ∈ f.linked)
  | _ => True

def Process.Sound (digest : Bytes → String) (f : Files) : Process → Prop
  | .idle => True
  | .putting key payload stage =>
    digest payload = key.digest ∧ stage.Sound digest f key payload
  | .deleting key stage => stage.Sound f key
  | .reading key s => s.Sound f (fun i => (.object key, i) ∈ f.linked)
  | .returned outcome => outcome.Honest digest f

def Process.owns : Process → Option Nat
  | .putting _ _ stage => stage.owns
  | _ => none

theorem Outcome.Honest.frame {outcome : Outcome} (h : outcome.Honest digest f)
    (hf : Frame own f f') : outcome.Honest digest f' := by
  cases outcome with
  | put key result =>
    cases result with
    | ok u =>
      obtain ⟨i, hi⟩ := h
      exact ⟨i, hf.linked _ hi⟩
    | error e => exact h
  | deleted key result => cases result <;> exact h
  | read key result => cases result <;> exact h

theorem Hidden.frame (h : Hidden f i) (hf : Frame own f f') (hown : own ≠ some i) :
    Hidden f' i ∧ f'.content i = f.content i ∧ f'.synced i = f.synced i := by
  refine ⟨⟨Nat.lt_of_lt_of_le h.fresh hf.next, fun hp => ?_⟩, hf.content i h.fresh (Or.inl hown)⟩
  exact (hf.published i h.fresh hp).elim h.unpublished hown

theorem reader_frame (hfiles : f.Sound digest) (hf : Frame own f f')
    (hs : s.Sound f (fun i => (.object key, i) ∈ f.linked)) :
    s.Sound f' (fun i => (.object key, i) ∈ f'.linked) :=
  hs.frame (fun i hi => ⟨hf.linked _ hi,
    (hf.content i (hfiles.fresh _ i hi) (Or.inr ⟨key, hi⟩)).1⟩)

theorem Process.Sound.frame {p : Process} (h : p.Sound digest f) (hfiles : f.Sound digest)
    (hf : Frame own f f') (hown : ∀ i, p.owns = some i → own ≠ some i) :
    p.Sound digest f' := by
  cases p with
  | idle => trivial
  | returned outcome => exact Outcome.Honest.frame h hf
  | reading key s => exact reader_frame hfiles hf h
  | deleting key stage =>
    cases stage with
    | checking s => exact reader_frame hfiles hf h
    | _ => trivial
  | putting key payload stage =>
    refine ⟨h.1, ?_⟩
    have hs := h.2
    cases stage with
    | «exists» => trivial
    | making => trivial
    | checking s => exact reader_frame hfiles hf hs
    | writing i rest =>
      obtain ⟨hhidden, hcontent⟩ := hs
      obtain ⟨hhidden', hcontent', -⟩ := hhidden.frame hf (hown i rfl)
      exact ⟨hhidden', hcontent' ▸ hcontent⟩
    | verifying i s =>
      obtain ⟨hhidden, hcontent, hsynced, hs⟩ := hs
      obtain ⟨hhidden', hcontent', hsynced'⟩ := hhidden.frame hf (hown i rfl)
      refine ⟨hhidden', hcontent'.trans hcontent, hsynced'.trans hsynced, hs.frame ?_⟩
      rintro j rfl
      exact ⟨rfl, hcontent'⟩
    | replacing i =>
      obtain ⟨hhidden, hcontent, hsynced⟩ := hs
      obtain ⟨hhidden', hcontent', hsynced'⟩ := hhidden.frame hf (hown i rfl)
      exact ⟨hhidden', hcontent'.trans hcontent, hsynced'.trans hsynced⟩
    | syncingDirectory i => exact hf.linked _ hs
    | cleaning i outcome => exact Outcome.Honest.frame hs hf

theorem not_corruption {message : String} (h : message.toList.head? = some 'c') :
    ¬corruption (.objectIntegrity message) := by
  rintro (rfl | rfl | rfl | rfl) <;> exact absurd h (by decide)

theorem cannot_verify {e : String} :
    ¬corruption (.objectIntegrity ("cannot verify existing object: " ++ e)) :=
  not_corruption (by rw [String.toList_append]; rfl)

theorem cannot_verify_deletion {e : String} :
    ¬corruption (.objectIntegrity ("cannot verify object before deletion: " ++ e)) :=
  not_corruption (by rw [String.toList_append]; rfl)

theorem cannot_delete {e : String} :
    ¬corruption (.objectIntegrity ("cannot delete verified object: " ++ e)) :=
  not_corruption (by rw [String.toList_append]; rfl)

theorem cannot_read {e : String} :
    ¬corruption (.objectIntegrity ("cannot read object: " ++ e)) :=
  not_corruption (by rw [String.toList_append]; rfl)

theorem Files.Sound.unlink (hf : f.Sound digest) : (f.unlink name).Sound digest := by
  refine ⟨hf.objects, fun name' i h => ?_, hf.fresh, hf.temporaries⟩
  by_cases hname : name' = name
  · rw [hname, Files.entry_unlink, Function.update_self] at h
    cases h
  · rw [Files.entry_unlink, Function.update_of_ne hname] at h
    exact hf.entries name' i h

theorem Files.Sound.mkstemp (hf : f.Sound digest) :
    f.mkstemp.Sound digest ∧ Frame own f f.mkstemp ∧ Hidden f.mkstemp f.next ∧
      f.mkstemp.content f.next = [] := by
  have hlinked : ∀ key i, (.object key, i) ∈ f.mkstemp.linked → (.object key, i) ∈ f.linked := by
    intro key i h
    rcases List.mem_cons.mp h with h | h
    · cases h
    · exact h
  have hold : ∀ j < f.next, f.mkstemp.content j = f.content j ∧ f.mkstemp.synced j = f.synced j :=
    fun j hj => ⟨Function.update_of_ne (Nat.ne_of_lt hj) _ _,
      Function.update_of_ne (Nat.ne_of_lt hj) _ _⟩
  refine ⟨⟨?_, ?_, ?_, ?_⟩, ⟨Nat.le_succ _, fun j hj _ => hold j hj,
    fun l hl => List.mem_cons_of_mem _ hl, ?_⟩, ⟨Nat.lt_succ_self _, ?_⟩,
    Function.update_self _ _ _⟩
  · intro key i h
    have hi := hlinked key i h
    rw [(hold i (hf.fresh _ i hi)).1, (hold i (hf.fresh _ i hi)).2]
    exact hf.objects key i hi
  · intro name i h
    by_cases hname : name = .temporary f.next
    · rw [hname, Files.entry_mkstemp, Function.update_self] at h
      obtain rfl := Option.some.inj h
      rw [hname]
      exact List.mem_cons_self
    · rw [Files.entry_mkstemp, Function.update_of_ne hname] at h
      exact List.mem_cons_of_mem _ (hf.entries name i h)
  · intro name i h
    rcases List.mem_cons.mp h with h | h
    · cases h
      exact Nat.lt_succ_self _
    · exact Nat.lt_succ_of_lt (hf.fresh name i h)
  · intro i j h
    rcases List.mem_cons.mp h with h | h
    · cases h
      rfl
    · exact hf.temporaries i j h
  · rintro j - ⟨key, hkey⟩
    exact Or.inl ⟨key, hlinked key j hkey⟩
  · rintro ⟨key, hkey⟩
    exact Nat.lt_irrefl _ (hf.fresh _ _ (hlinked key _ hkey))

theorem Files.Sound.change (hf : f.Sound digest) (hi : ¬Published f i)
    (hsame : ∀ j, j ≠ i → f'.content j = f.content j ∧ f'.synced j = f.synced j)
    (hentry : f'.entry = f.entry) (hlinked : f'.linked = f.linked) (hnext : f'.next = f.next) :
    f'.Sound digest ∧ Frame (some i) f f' := by
  have hother : ∀ key j, (.object key, j) ∈ f.linked → j ≠ i := by
    rintro key j hj rfl
    exact hi ⟨key, hj⟩
  refine ⟨⟨?_, ?_, ?_, ?_⟩, ⟨hnext.ge, ?_, fun l hl => hlinked ▸ hl, ?_⟩⟩
  · intro key j hj
    rw [hlinked] at hj
    rw [(hsame j (hother key j hj)).1, (hsame j (hother key j hj)).2]
    exact hf.objects key j hj
  · intro name j hj
    rw [hentry] at hj
    exact hlinked ▸ hf.entries name j hj
  · intro name j hj
    rw [hlinked] at hj
    exact hnext ▸ hf.fresh name j hj
  · intro j k hj
    rw [hlinked] at hj
    exact hf.temporaries j k hj
  · rintro j - (hown | ⟨key, hkey⟩)
    · exact hsame j (fun heq => hown (congrArg some heq.symm))
    · exact hsame j (hother key j hkey)
  · rintro j - ⟨key, hkey⟩
    exact Or.inl ⟨key, hlinked ▸ hkey⟩

theorem Files.Sound.write (hf : f.Sound digest) (hi : ¬Published f i) (chunk : Bytes) :
    (f.write i chunk).Sound digest ∧ Frame (some i) f (f.write i chunk) :=
  hf.change hi (fun _ hj => ⟨Function.update_of_ne hj _ _, rfl⟩) rfl rfl rfl

theorem Files.Sound.fsync (hf : f.Sound digest) (hi : ¬Published f i) :
    (f.fsync i).Sound digest ∧ Frame (some i) f (f.fsync i) :=
  hf.change hi (fun _ hj => ⟨rfl, Function.update_of_ne hj _ _⟩) rfl rfl rfl

theorem Files.Sound.replace (hf : f.Sound digest) (hi : i < f.next)
    (hdigest : digest (f.content i) = key.digest) (hsynced : f.synced i = true) (j : Nat) :
    (f.replace i (.temporary j) (.object key)).Sound digest ∧
      Frame (some i) f (f.replace i (.temporary j) (.object key)) := by
  refine ⟨⟨?_, ?_, ?_, ?_⟩, ⟨Nat.le_refl _, fun _ _ _ => ⟨rfl, rfl⟩,
    fun l hl => List.mem_cons_of_mem _ hl, ?_⟩⟩
  · intro key' k h
    rcases List.mem_cons.mp h with h | h
    · cases h
      exact ⟨hdigest, hsynced⟩
    · exact hf.objects key' k h
  · intro name k h
    by_cases hname : name = .object key
    · rw [hname, Files.entry_replace, Function.update_self] at h
      obtain rfl := Option.some.inj h
      rw [hname]
      exact List.mem_cons_self
    · rw [Files.entry_replace, Function.update_of_ne hname] at h
      refine List.mem_cons_of_mem _ (hf.entries name k ?_)
      by_cases htemp : name = .temporary j
      · rw [htemp, Function.update_self] at h
        cases h
      · rw [Function.update_of_ne htemp] at h
        exact h
  · intro name k h
    rcases List.mem_cons.mp h with h | h
    · cases h
      exact hi
    · exact hf.fresh name k h
  · intro k l h
    rcases List.mem_cons.mp h with h | h
    · cases h
    · exact hf.temporaries k l h
  · rintro k - ⟨key', hkey⟩
    rcases List.mem_cons.mp hkey with h | h
    · cases h
      exact Or.inr rfl
    · exact Or.inl ⟨key', h⟩

/-- What one system call keeps: the files, the calls of others, and the call itself. -/
structure Kept (digest : Bytes → String) (own : Option Nat) (f f' : Files) (p : Process) :
    Prop where
  files : f'.Sound digest
  frame : Frame own f f'
  process : p.Sound digest f'
  owns : ∀ i, p.owns = some i → own = some i ∨ i = f.next

theorem putStep_kept {stage : PutStage} {result : PutStage ⊕ Except Failure Unit}
    (hf : f.Sound digest) (hd : digest payload = key.digest)
    (hs : stage.Sound digest f key payload)
    (h : PutStep digest key payload key.digest f stage f' result) :
    Kept digest stage.owns f f' (putting key payload result) := by
  have hentries : ∀ i, f.entry (.object key) = some i → (.object key, i) ∈ f.linked :=
    fun i hi => hf.entries _ i hi
  have htemporary : ∀ i j, f.entry (.temporary i) = some j → j = i :=
    fun i j hj => hf.temporaries i j (hf.entries _ j hj)
  cases h with
  | present => exact ⟨hf, .refl, ⟨hd, trivial⟩, fun i hi => Or.inl hi⟩
  | absent => exact ⟨hf, .refl, ⟨hd, trivial⟩, fun i hi => Or.inl hi⟩
  | check h => exact ⟨hf, .refl, ⟨hd, h.sound hs hentries⟩, fun i hi => Or.inl hi⟩
  | unreadable h => exact ⟨hf, .refl, cannot_verify, fun i hi => Or.inl hi⟩
  | mismatched h hne =>
    obtain ⟨i, hi, rfl⟩ := h.whole hs
    exact absurd (hf.objects key i hi).1 hne
  | found h heq =>
    obtain ⟨i, hi, rfl⟩ := h.whole hs
    exact ⟨hf, .refl, ⟨i, hi⟩, fun i hi => Or.inl hi⟩
  | made =>
    obtain ⟨hf', hframe, hhidden, hempty⟩ := hf.mkstemp
    refine ⟨hf', hframe, ⟨hd, hhidden, ?_⟩, fun i hi => Or.inr (Option.some.inj hi).symm⟩
    rw [hempty, List.nil_append]
  | unmade e => exact ⟨hf, .refl, not_false, fun i hi => Or.inl hi⟩
  | @wrote i rest n =>
    obtain ⟨hhidden, hcontent⟩ := hs
    obtain ⟨hf', hframe⟩ := hf.write hhidden.unpublished (rest.take n)
    refine ⟨hf', hframe, ⟨hd, ⟨hhidden.fresh, hhidden.unpublished⟩, ?_⟩, fun i hi => Or.inl hi⟩
    rw [Files.content_write, Function.update_self, List.append_assoc, List.take_append_drop]
    exact hcontent
  | @synced i =>
    obtain ⟨hhidden, hcontent⟩ := hs
    obtain ⟨hf', hframe⟩ := hf.fsync hhidden.unpublished
    refine ⟨hf', hframe, ⟨hd, ⟨hhidden.fresh, hhidden.unpublished⟩, ?_, ?_, trivial⟩,
      fun i hi => Or.inl hi⟩
    · rw [List.append_nil] at hcontent
      exact hcontent
    · exact Function.update_self _ _ _
  | @verify i s s' h =>
    obtain ⟨hhidden, hcontent, hsynced, hread⟩ := hs
    exact ⟨hf, .refl, ⟨hd, hhidden, hcontent, hsynced, h.sound hread (htemporary i)⟩,
      fun i hi => Or.inl hi⟩
  | @corrupted i s found h hne =>
    obtain ⟨hhidden, hcontent, hsynced, hread⟩ := hs
    obtain ⟨j, rfl, rfl⟩ := h.whole hread
    rw [hcontent] at hne
    exact absurd hd hne
  | @verified i s found h heq =>
    obtain ⟨hhidden, hcontent, hsynced, hread⟩ := hs
    exact ⟨hf, .refl, ⟨hd, hhidden, hcontent, hsynced⟩, fun i hi => Or.inl hi⟩
  | @replaced i j h =>
    obtain rfl := htemporary i j h
    obtain ⟨hhidden, hcontent, hsynced⟩ := hs
    obtain ⟨hf', hframe⟩ := hf.replace hhidden.fresh (hcontent ▸ hd) hsynced j
    exact ⟨hf', hframe, ⟨hd, List.mem_cons_self⟩, fun i hi => by cases hi⟩
  | @syncedDirectory i => exact ⟨hf, .refl, ⟨hd, ⟨i, hs⟩⟩, fun i hi => Or.inl hi⟩
  | failed e hguarded => exact ⟨hf, .refl, ⟨hd, not_false⟩, fun i hi => by cases hi⟩
  | cleaned => exact ⟨hf.unlink, .unlink, hs, fun i hi => Or.inl hi⟩
  | uncleaned e h => exact ⟨hf, .refl, not_false, fun i hi => Or.inl hi⟩

theorem deleteStep_kept {stage : DeleteStage} {result : DeleteStage ⊕ Except Failure Bool}
    (hf : f.Sound digest) (hs : stage.Sound f key)
    (h : DeleteStep digest key key.digest f stage f' result) :
    Kept digest none f f' (deleting key result) := by
  cases h with
  | absent => exact ⟨hf, .refl, trivial, fun i hi => Or.inl hi⟩
  | present => exact ⟨hf, .refl, trivial, fun i hi => Or.inl hi⟩
  | check h =>
    exact ⟨hf, .refl, h.sound hs (fun i hi => hf.entries _ i hi), fun i hi => Or.inl hi⟩
  | unreadable h => exact ⟨hf, .refl, cannot_verify_deletion, fun i hi => Or.inl hi⟩
  | mismatched h hne =>
    obtain ⟨i, hi, rfl⟩ := h.whole hs
    exact absurd (hf.objects key i hi).1 hne
  | verified h heq => exact ⟨hf, .refl, trivial, fun i hi => Or.inl hi⟩
  | unlinked h => exact ⟨hf.unlink, .unlink, trivial, fun i hi => Or.inl hi⟩
  | failed e h => exact ⟨hf, .refl, cannot_delete, fun i hi => Or.inl hi⟩
  | syncedDirectory => exact ⟨hf, .refl, trivial, fun i hi => Or.inl hi⟩

theorem readStep_kept {result : ReadStage ⊕ Except String Bytes} (hf : f.Sound digest)
    (hs : s.Sound f (fun i => (.object key, i) ∈ f.linked))
    (h : ReadStep f (.object key) s result) : Kept digest none f f (reading digest key result) := by
  refine ⟨hf, .refl, ?_, fun i hi => ?_⟩
  · cases result with
    | inl s' => exact h.sound hs (fun i hi => hf.entries _ i hi)
    | inr result =>
      cases result with
      | error e => exact cannot_read
      | ok found =>
        obtain ⟨i, hi, rfl⟩ := h.whole hs
        have hdigest := (hf.objects key i hi).1
        rw [reading, verdict, if_neg (not_not.mpr hdigest)]
        exact hdigest
  · cases result <;> cases hi

theorem advances_kept {p p' : Process} (hf : f.Sound digest) (hp : p.Sound digest f)
    (h : Advances digest f p f' p') : Kept digest p.owns f f' p' := by
  cases h with
  | put h => exact putStep_kept hf hp.1 hp.2 h
  | delete h => exact deleteStep_kept hf hp h
  | read h => exact readStep_kept hf hp h

/-- The files are sound, every call is where it should be, and no two write to one inode. -/
structure System.Sound (digest : Bytes → String) (s : System) : Prop where
  files : s.files.Sound digest
  processes : ∀ pid, (s.processes pid).Sound digest s.files
  apart : ∀ pid pid' i, (s.processes pid).owns = some i → (s.processes pid').owns = some i →
    pid = pid'

theorem owns_fresh {p : Process} (hp : p.Sound digest f) (h : p.owns = some i) : i < f.next := by
  cases p with
  | putting key payload stage =>
    have hs := hp.2
    cases stage with
    | writing j rest =>
      obtain rfl := Option.some.inj h
      exact hs.1.fresh
    | verifying j s =>
      obtain rfl := Option.some.inj h
      exact hs.1.fresh
    | replacing j =>
      obtain rfl := Option.some.inj h
      exact hs.1.fresh
    | _ => cases h
  | _ => cases h

theorem System.Sound.set {t : System} {pid : Nat} {p : Process} (h : t.Sound digest)
    (hk : Kept digest (t.processes pid).owns t.files f p) : (t.set pid f p).Sound digest := by
  have hown : ∀ pid', pid' ≠ pid → ∀ i, (t.processes pid').owns = some i →
      (t.processes pid).owns ≠ some i := fun pid' hne i hi hi' => hne (h.apart pid' pid i hi hi')
  have hother : ∀ pid' i, pid' ≠ pid → (t.processes pid').owns = some i → p.owns ≠ some i := by
    intro pid' i hne hi hp
    rcases hk.owns i hp with ho | rfl
    · exact hown pid' hne i hi ho
    · exact Nat.lt_irrefl _ (owns_fresh (h.processes pid') hi)
  refine ⟨hk.files, fun pid' => ?_, fun pid₁ pid₂ i h₁ h₂ => ?_⟩
  · by_cases hpid : pid' = pid
    · rw [hpid, System.processes_set, Function.update_self]
      exact hk.process
    · rw [System.processes_set, Function.update_of_ne hpid]
      exact (h.processes pid').frame h.files hk.frame (hown pid' hpid)
  · rw [System.processes_set] at h₁ h₂
    by_cases hpid₁ : pid₁ = pid
    · by_cases hpid₂ : pid₂ = pid
      · exact hpid₁.trans hpid₂.symm
      · rw [hpid₁, Function.update_self] at h₁
        rw [Function.update_of_ne hpid₂] at h₂
        exact absurd h₁ (hother pid₂ i hpid₂ h₂)
    · rw [Function.update_of_ne hpid₁] at h₁
      by_cases hpid₂ : pid₂ = pid
      · rw [hpid₂, Function.update_self] at h₂
        exact absurd h₂ (hother pid₁ i hpid₁ h₁)
      · rw [Function.update_of_ne hpid₂] at h₂
        exact h.apart pid₁ pid₂ i h₁ h₂

theorem Files.Sound.survives (hf : f.Sound digest) (h : f.Survives f') : f'.Sound digest := by
  refine ⟨fun key i hi => ?_, fun name i hi => h.linked ▸ h.entry name i hi, fun name i hi => ?_,
    fun i j hj => ?_⟩
  · rw [h.linked] at hi
    obtain ⟨hdigest, hsynced⟩ := hf.objects key i hi
    exact ⟨by rw [h.content i hsynced]; exact hdigest, by rw [h.synced]; exact hsynced⟩
  · rw [h.linked] at hi
    exact h.next ▸ hf.fresh name i hi
  · rw [h.linked] at hj
    exact hf.temporaries i j hj

theorem begins_kept {p : Process} (hf : f.Sound digest) (h : Begins digest p) :
    Kept digest own f f p := by
  cases h with
  | put hd => exact ⟨hf, .refl, ⟨hd, trivial⟩, fun i hi => by cases hi⟩
  | mismatched hd =>
    refine ⟨hf, .refl, ?_, fun i hi => by cases hi⟩
    rintro (h | h | h | h) <;> exact absurd h (by decide)
  | delete => exact ⟨hf, .refl, trivial, fun i hi => by cases hi⟩
  | read => exact ⟨hf, .refl, trivial, fun i hi => by cases hi⟩

theorem System.Sound.step {t t' : System} {e : Event} (h : t.Sound digest)
    (hs : Step digest t e t') :
    t'.Sound digest := by
  cases hs with
  | call pid hb => exact h.set (begins_kept h.files hb)
  | advance pid ha => exact h.set (advances_kept h.files (h.processes pid) ha)
  | powerLoss hs => exact ⟨h.files.survives hs, fun _ => trivial, fun _ _ _ hi => by cases hi⟩

theorem sound_of_run {t : System} (h : Run digest t) : t.Sound digest := by
  induction h with
  | initial =>
    refine ⟨⟨fun _ _ hi => ?_, fun _ _ hi => ?_, fun _ _ hi => ?_, fun _ _ hi => ?_⟩,
      fun _ => trivial, fun _ _ _ hi => ?_⟩
    · exact absurd hi List.not_mem_nil
    · cases hi
    · exact absurd hi List.not_mem_nil
    · exact absurd hi List.not_mem_nil
    · cases hi
  | step _ hs ih => exact ih.step hs

theorem objects_verified (hf : f.Sound digest) (h : f.objects key = some payload) :
    digest payload = key.digest := by
  obtain ⟨i, hi, rfl⟩ := Option.map_eq_some_iff.mp h
  exact (hf.objects key i (hf.entries _ i hi)).1

/-- At a moment of the put that the process is in, or has returned from, the name of the object
led to the inode. -/
def Present (digest : Bytes → String) (pid : Nat) (key : ObjectKey) (i : Nat) (t : System) : Prop :=
  ∃ t₀ payload stage, Run digest t₀ ∧ t₀.processes pid = .putting key payload stage ∧
    t₀.files.entry (.object key) = some i ∧ Since digest pid t₀ t

/-- What a put has seen of its object, or made of it. -/
def Process.Saw (digest : Bytes → String) (pid : Nat) (t : System) : Process → Prop
  | .putting key _ (.checking (.reading i _)) => Present digest pid key i t
  | .putting key _ (.syncingDirectory _) => ∃ i, Present digest pid key i t
  | .putting key _ (.cleaning _ (.ok ())) => ∃ i, Present digest pid key i t
  | .returned (.put key (.ok ())) => ∃ i, Present digest pid key i t
  | _ => True

theorem Present.step {t t' : System} {e : Event} {pid : Nat} (h : Present digest pid key i t)
    (hs : Step digest t e t') (he : e ≠ .call pid) (hp : e ≠ .powerLoss) :
    Present digest pid key i t' := by
  obtain ⟨t₀, payload, stage, hrun, hput, hentry, hsince⟩ := h
  exact ⟨t₀, payload, stage, hrun, hput, hentry, hsince.step hs he hp⟩

theorem Process.Saw.step {t t' : System} {e : Event} {pid : Nat} {p : Process}
    (h : p.Saw digest pid t) (hs : Step digest t e t') (he : e ≠ .call pid) (hp : e ≠ .powerLoss) :
    p.Saw digest pid t' := by
  unfold Process.Saw at h ⊢
  split at h
  · exact h.step hs he hp
  · obtain ⟨i, h⟩ := h
    exact ⟨i, h.step hs he hp⟩
  · obtain ⟨i, h⟩ := h
    exact ⟨i, h.step hs he hp⟩
  · obtain ⟨i, h⟩ := h
    exact ⟨i, h.step hs he hp⟩
  · trivial

theorem begins_saw {t : System} {pid : Nat} {p : Process} (h : Begins digest p) :
    p.Saw digest pid t := by
  cases h <;> trivial

theorem putStep_saw {t : System} {pid : Nat} {stage : PutStage}
    {result : PutStage ⊕ Except Failure Unit} (hrun : Run digest t)
    (hput : t.processes pid = .putting key payload stage)
    (hs : Process.Saw digest pid t (.putting key payload stage))
    (h : PutStep digest key payload key.digest t.files stage f' result) :
    (putting key payload result).Saw digest pid (t.set pid f' (putting key payload result)) := by
  have hstep : Step digest t (.system pid) (t.set pid f' (putting key payload result)) := by
    refine .advance pid ?_
    rw [hput]
    exact .put h
  have hkeep : ∀ i, Present digest pid key i t →
      Present digest pid key i (t.set pid f' (putting key payload result)) := fun i hi =>
    hi.step hstep (by rintro ⟨⟩) (by rintro ⟨⟩)
  cases h with
  | check h =>
    cases h with
    | opened hentry => exact hkeep _ ⟨t, payload, _, hrun, hput, hentry, .here⟩
    | chunk n => exact hkeep _ hs
  | found h hd =>
    cases h with
    | finished hlength => exact ⟨_, hkeep _ hs⟩
  | @replaced i j h =>
    refine ⟨j, _, payload, .syncingDirectory i, hrun.step hstep, ?_, ?_, .here⟩
    · exact Function.update_self _ _ _
    · exact Function.update_self _ _ _
  | syncedDirectory =>
    obtain ⟨i, hi⟩ := hs
    exact ⟨i, hkeep i hi⟩
  | @cleaned i outcome =>
    cases outcome with
    | ok u =>
      obtain ⟨i, hi⟩ := hs
      exact ⟨i, hkeep i hi⟩
    | error e => trivial
  | _ => trivial

theorem saw_of_run {t : System} (h : Run digest t) (pid : Nat) :
    (t.processes pid).Saw digest pid t := by
  induction h generalizing pid with
  | initial => trivial
  | @step t t' e hrun hs ih =>
    have hother : ∀ pid' f p, pid ≠ pid' → t' = t.set pid' f p → e ≠ .call pid → e ≠ .powerLoss →
        (t'.processes pid).Saw digest pid t' := by
      rintro pid' f p hne rfl he hp
      rw [System.processes_set, Function.update_of_ne hne]
      exact (ih pid).step hs he hp
    cases hs with
    | @call p pid' hb =>
      by_cases hpid : pid = pid'
      · subst hpid
        rw [System.processes_set, Function.update_self]
        exact begins_saw hb
      · exact hother pid' _ _ hpid rfl (fun h => hpid (Event.call.inj h).symm) (by rintro ⟨⟩)
    | powerLoss => trivial
    | @advance f p pid' ha =>
      by_cases hpid : pid = pid'
      · subst hpid
        rw [System.processes_set, Function.update_self]
        have hsaw := ih pid
        generalize hproc : t.processes pid = p₀ at ha hsaw
        cases ha with
        | put h => exact putStep_saw hrun hproc hsaw h
        | @delete key stage f' result h => cases result <;> trivial
        | @read key stage result h => cases result <;> trivial
      · exact hother pid' _ _ hpid rfl (by rintro ⟨⟩) (by rintro ⟨⟩)

/-- What a caller can see: whole objects, answers that are so, and a put that has returned once
the object was there, at some moment of that very call. -/
structure Intact (digest : Bytes → String) (t : System) : Prop where
  objects : ∀ key payload, t.files.objects key = some payload → digest payload = key.digest
  answers : ∀ pid outcome, t.processes pid = .returned outcome → outcome.Honest digest t.files
  stored : ∀ pid key, t.processes pid = .returned (.put key (.ok ())) →
    ∃ t₀ payload stage found, t₀.processes pid = .putting key payload stage ∧
      Since digest pid t₀ t ∧ t₀.files.objects key = some found ∧ digest found = key.digest

theorem stored_of_run {t : System} {pid : Nat} (h : Run digest t)
    (hp : t.processes pid = .returned (.put key (.ok ()))) :
    ∃ t₀ payload stage found, t₀.processes pid = .putting key payload stage ∧
      Since digest pid t₀ t ∧ t₀.files.objects key = some found ∧ digest found = key.digest := by
  have hsaw := saw_of_run h pid
  rw [hp] at hsaw
  obtain ⟨i, t₀, payload, stage, hrun, hput, hentry, hsince⟩ := hsaw
  have hobject : t₀.files.objects key = some (t₀.files.content i) := by
    rw [Files.objects, hentry, Option.map_some]
  exact ⟨t₀, payload, stage, _, hput, hsince, hobject,
    objects_verified (sound_of_run hrun).files hobject⟩

/-- Whatever runs beside it, is killed or fails, and wherever the power goes, an object is
never seen in part and no checksum of the store's own ever fails. -/
theorem objects_never_torn {t : System} (h : Run digest t) : Intact digest t := by
  have hs := sound_of_run h
  refine ⟨fun key payload ho => objects_verified hs.files ho, fun pid outcome hp => ?_,
    fun pid key hp => stored_of_run h hp⟩
  have hsound := hs.processes pid
  rw [hp] at hsound
  exact hsound

end soundness

section refinement

variable {env : Env} {f f' : Files} {key : ObjectKey} {payload : Bytes} {own : Option Nat}

/-- What a step may do to the object store. -/
inductive Work where
  | nothing
  | put (key : ObjectKey) (payload : Bytes)
  | delete (key : ObjectKey)
  | powerLoss

def Process.work : Process → Work
  | .putting key payload _ => .put key payload
  | .deleting key _ => .delete key
  | _ => .nothing

def System.work (t : System) : Event → Work
  | .call _ => .nothing
  | .system pid => (t.processes pid).work
  | .powerLoss => .powerLoss

/-- A step of the object store as a whole. A call does nothing to it, or what it is for. -/
inductive StoreStep (env : Env) (objects : ObjectStore) : Work → ObjectStore → Prop where
  | still {work : Work} : StoreStep env objects work objects
  | put (key : ObjectKey) (payload : Bytes) : StoreStep env objects (.put key payload)
      (LocalObjectStore.putVerified env .none key payload key.digest objects).2
  | delete (key : ObjectKey) : StoreStep env objects (.delete key)
      (LocalObjectStore.deleteVerified env .none key key.digest objects).2
  | powerLoss {objects' : ObjectStore}
      (h : ∀ key payload, objects' key = some payload → env.sha256 payload = key.digest) :
      StoreStep env objects .powerLoss objects'

theorem objects_of_frame (hf : f.Sound env.sha256) (hframe : Frame own f f')
    (hentry : ∀ key, f'.entry (.object key) = f.entry (.object key)) : f'.objects = f.objects := by
  funext key
  unfold Files.objects
  rw [hentry]
  cases hi : f.entry (.object key) with
  | none => rfl
  | some i =>
    have hlinked := hf.entries _ i hi
    exact congrArg some (hframe.content i (hf.fresh _ i hlinked) (Or.inr ⟨key, hlinked⟩)).1

theorem objects_replace (i j : Nat) : (f.replace i (.temporary j) (.object key)).objects =
    Function.update f.objects key (some (f.content i)) := by
  funext key'
  by_cases hkey : key' = key
  · subst hkey
    rw [Function.update_self, Files.objects, Files.entry_replace, Function.update_self]
    rfl
  · have hname : FileName.object key' ≠ .object key := fun h => hkey (FileName.object.inj h)
    rw [Function.update_of_ne hkey, Files.objects, Files.entry_replace,
      Function.update_of_ne hname, Function.update_of_ne object_ne_temporary]
    rfl

theorem objects_unlink : (f.unlink (.object key)).objects = Function.update f.objects key none := by
  funext key'
  by_cases hkey : key' = key
  · subst hkey
    rw [Function.update_self, Files.objects, Files.entry_unlink, Function.update_self]
    rfl
  · have hname : FileName.object key' ≠ .object key := fun h => hkey (FileName.object.inj h)
    rw [Function.update_of_ne hkey, Files.objects, Files.entry_unlink, Function.update_of_ne hname]
    rfl

/-- Replacing an object writes what the store would have written, for no two payloads share a
digest. -/
theorem replace_refines (hinj : Function.Injective env.sha256) (hf : f.Sound env.sha256) {i : Nat}
    (hd : env.sha256 (f.content i) = key.digest) (j : Nat) :
    StoreStep env f.objects (.put key (f.content i))
      (f.replace i (.temporary j) (.object key)).objects := by
  have hput : (LocalObjectStore.putVerified env .none key (f.content i) key.digest f.objects).2 =
      Function.update f.objects key (some (f.content i)) := by
    unfold LocalObjectStore.putVerified LocalObjectStore.existsVerified
    rw [if_neg (not_not.mpr hd)]
    cases ho : f.objects key with
    | none => rfl
    | some found =>
      have hfound := objects_verified hf ho
      obtain rfl := hinj (hfound.trans hd.symm)
      simp only [Faults.none, ne_eq, hfound, not_true_eq_false, if_false]
      exact (Function.update_eq_self_iff.mpr ho.symm).symm
  rw [objects_replace, ← hput]
  exact .put key (f.content i)

theorem unlink_refines (hf : f.Sound env.sha256) (h : f.entry (.object key) ≠ none) :
    StoreStep env f.objects (.delete key) (f.unlink (.object key)).objects := by
  obtain ⟨i, hi⟩ := Option.ne_none_iff_exists'.mp h
  have ho : f.objects key = some (f.content i) := by rw [Files.objects, hi]; rfl
  have hdelete : (LocalObjectStore.deleteVerified env .none key key.digest f.objects).2 =
      Function.update f.objects key none := by
    unfold LocalObjectStore.deleteVerified
    simp only [ho, Faults.none, ne_eq, objects_verified hf ho, not_true_eq_false, if_false]
  rw [objects_unlink, ← hdelete]
  exact .delete key

theorem putStep_refines (hinj : Function.Injective env.sha256) (hf : f.Sound env.sha256)
    {stage : PutStage} {result : PutStage ⊕ Except Failure Unit}
    (hd : env.sha256 payload = key.digest) (hs : stage.Sound env.sha256 f key payload)
    (h : PutStep env.sha256 key payload key.digest f stage f' result) :
    StoreStep env f.objects (.put key payload) f'.objects := by
  have hkept := putStep_kept hf hd hs h
  have hsame : (∀ key, f'.entry (.object key) = f.entry (.object key)) →
      StoreStep env f.objects (.put key payload) f'.objects := by
    intro hentry
    rw [objects_of_frame hf hkept.frame hentry]
    exact .still
  cases h with
  | made =>
    refine hsame (fun key => ?_)
    rw [Files.entry_mkstemp, Function.update_of_ne object_ne_temporary]
  | cleaned =>
    refine hsame (fun key => ?_)
    rw [Files.entry_unlink, Function.update_of_ne object_ne_temporary]
  | @replaced i j h =>
    obtain rfl := hf.temporaries i j (hf.entries _ j h)
    obtain ⟨hhidden, hcontent, hsynced⟩ := hs
    have hrefines := replace_refines hinj hf (hcontent ▸ hd) j
    rwa [hcontent] at hrefines
  | _ => exact hsame (fun key => rfl)

/-- Every system call of every process, seen through the names, is the whole operation that its
call is for, or none. -/
theorem files_refine_store (hinj : Function.Injective env.sha256) {t t' : System} {e : Event}
    (h : Run env.sha256 t) (hs : Step env.sha256 t e t') :
    StoreStep env t.files.objects (t.work e) t'.files.objects := by
  have ht := sound_of_run h
  cases hs with
  | call pid hb => exact .still
  | powerLoss hsurvives =>
    exact .powerLoss (fun key payload ho => objects_verified (ht.files.survives hsurvives) ho)
  | advance pid ha =>
    have hp := ht.processes pid
    rw [System.work]
    generalize t.processes pid = p at ha hp
    cases ha with
    | put h => exact putStep_refines hinj ht.files hp.1 hp.2 h
    | read h => exact .still
    | delete h =>
      cases h with
      | unlinked hentry => exact unlink_refines ht.files hentry
      | _ => exact .still

end refinement

section completion

variable {digest} {t : System} {f f' : Files} {pid : Nat} {p p' : Process} {key : ObjectKey}
  {payload : Bytes}

theorem Run.advance (h : Run digest (t.set pid f p)) (ha : Advances digest f p f' p') :
    Run digest (t.set pid f' p') := by
  have hs : Step digest (t.set pid f p) (.system pid) ((t.set pid f p).set pid f' p') := by
    refine .advance pid ?_
    rw [System.processes_set, Function.update_self]
    exact ha
  have hset : (t.set pid f p).set pid f' p' = t.set pid f' p' := by
    rw [System.set, System.set, System.set, Function.update_idem]
  exact hset ▸ h.step hs

/-- A put of a new object that nothing stands in the way of. -/
theorem put_completes (h : Run digest t) (hd : digest payload = key.digest)
    (habsent : t.files.entry (.object key) = none) (pid : Nat) :
    ∃ t', Run digest t' ∧ t'.files.objects key = some payload ∧
      t'.processes pid = .returned (.put key (.ok ())) := by
  let i := t.files.next
  let written := (t.files.mkstemp.write i (payload.take payload.length)).fsync i
  have hcontent : written.content i = payload := by
    have hempty : t.files.mkstemp.content i = [] := Function.update_self _ _ _
    show (t.files.mkstemp.write i _).content i = payload
    rw [Files.content_write, Function.update_self, hempty, List.nil_append, List.take_length]
  have hentry : written.entry (.temporary i) = some i := Function.update_self _ _ _
  have hread : [] ++ ((written.content i).drop ([] : Bytes).length).take payload.length =
      payload := by
    rw [hcontent, List.nil_append, List.length_nil, List.drop_zero, List.take_length]
  have called : Run digest (t.set pid t.files (.putting key payload .exists)) :=
    h.step (.call pid (.put hd))
  have making := called.advance (.put (.absent habsent))
  have made := making.advance (.put .made)
  have wrote := made.advance (.put (.wrote payload.length))
  rw [List.drop_length] at wrote
  have synced := wrote.advance (.put .synced)
  have opened := synced.advance (.put (.verify (.opened hentry)))
  have whole := opened.advance (.put (.verify (.chunk payload.length)))
  rw [hread] at whole
  have verified := whole.advance (.put (.verified (.finished (by rw [hcontent])) hd))
  have replaced := verified.advance (.put (.replaced hentry))
  have cleaned := (replaced.advance (.put .syncedDirectory)).advance (.put .cleaned)
  refine ⟨_, cleaned, ?_, Function.update_self _ _ _⟩
  show (((written.replace i (.temporary i) (.object key)).unlink (.temporary i)).entry
    (.object key)).map written.content = some payload
  rw [Files.entry_unlink, Function.update_of_ne object_ne_temporary, Files.entry_replace,
    Function.update_self, Option.map_some, hcontent]

end completion

theorem sample_digest : Sample.env.sha256 Sample.payload = Sample.digest := by
  show Sample.sha256 Sample.payload = Sample.digest
  rw [Sample.sha256, if_pos rfl]

theorem objects_never_torn_sample : ∃ t, Run Sample.env.sha256 t ∧
    t.files.objects (.segment "t" "c" Sample.digest) = some Sample.payload ∧
    Intact Sample.env.sha256 t := by
  obtain ⟨t, hrun, ho, -⟩ := @put_completes Sample.env.sha256 .initial
    (.segment "t" "c" Sample.digest) Sample.payload .initial sample_digest rfl 0
  exact ⟨t, hrun, ho, objects_never_torn hrun⟩

/-- The power goes before the directory is on the disk. -/
theorem files_refine_store_sample : ∃ t t' e, Run Sample.env.sha256 t ∧
    Step Sample.env.sha256 t e t' ∧
    t.files.objects (.segment "t" "c" Sample.digest) = some Sample.payload ∧
    t'.files.objects (.segment "t" "c" Sample.digest) = none ∧
    StoreStep Sample.env t.files.objects (t.work e) t'.files.objects := by
  obtain ⟨t, hrun, ho, -⟩ := @put_completes Sample.env.sha256 .initial
    (.segment "t" "c" Sample.digest) Sample.payload .initial sample_digest rfl 0
  have hs : Step Sample.env.sha256 t .powerLoss
      ⟨{ t.files with entry := fun _ => none }, fun _ => .idle⟩ :=
    .powerLoss ⟨fun _ _ => rfl, rfl, fun _ _ hi => absurd hi (by rintro ⟨⟩), rfl, rfl⟩
  exact ⟨t, _, _, hrun, hs, ho, rfl, files_refine_store Sample.sha256_injective hrun hs⟩

end ObjectFiles

end RankLens
