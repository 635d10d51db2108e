import Splora.Foundation.Faulty
import Splora.Queue.Rows

/-!
# Approving a key when operations fail

The queue is rewritten without the key and then the allowlist with it.  Any file operation may
fail or be the last one; the key is lost if only the queue was replaced.
-/

namespace Splora
namespace Queue

open Foundation Auth

inductive Path where
  | queue
  | queueTmp
  | allowlist
  | allowlistTmp
deriving DecidableEq, Repr

def Path.tmp : Path -> Path
  | queue => queueTmp
  | allowlist => allowlistTmp
  | path => path

inductive FileOp where
  | stat
  | statAgain
  | read
  | create
  | write
  | sync
  | rename
  | reopen
  | resync
deriving DecidableEq, Repr

abbrev Disk := Path -> Option Text

abbrev Fates := Path × FileOp -> Fate

abbrev FileM := Faulty (Path × FileOp) Disk QueueError

def ioFailure : QueueError :=
  .io "Input/output error (os error 5)".toList

def untouched (_ : Nat) (disk : Disk) : Disk :=
  disk

def pathExists (path : Path) (op : FileOp) : FileM Bool :=
  fun fates disk =>
    match fates (path, op) with
    | .done => (.ok (disk path).isSome, disk)
    | .failed _ => (.ok false, disk)
    | .crashed _ => (.error .crash, disk)

def readToString (path : Path) : FileM Text :=
  Faulty.attempt (path, .read)
    (fun disk => (expect (disk path) (.io noSuchFile), disk)) ioFailure untouched

def create (path : Path) : FileM Unit :=
  Faulty.attempt (path, .create)
    (fun disk => (.ok (), Function.update disk path (some []))) ioFailure untouched

def writeAll (path : Path) (body : Text) : FileM Unit :=
  Faulty.attempt (path, .write)
    (fun disk => (.ok (), Function.update disk path (some body))) ioFailure
    (fun progress disk => Function.update disk path (some (body.take progress)))

def syncAll (path : Path) (op : FileOp) : FileM Unit :=
  Faulty.attempt (path, op) (fun disk => (.ok (), disk)) ioFailure untouched

def rename (source target : Path) : FileM Unit :=
  Faulty.attempt (source, .rename) (fun disk =>
      match disk source with
      | some body =>
        (.ok (), Function.update (Function.update disk target (some body)) source none)
      | none => (.error (.io noSuchFile), disk))
    ioFailure untouched

def settleFile (path : Path) : FileM Unit :=
  Faulty.tolerate do
    syncAll path .reopen
    syncAll path .resync

def replaceFile (path : Path) (body : Text) : FileM Unit := do
  create path.tmp
  writeAll path.tmp body
  syncAll path.tmp .sync
  rename path.tmp path
  settleFile path

def readIfExists (path : Path) : FileM (Option Text) := do
  if <- pathExists path .stat then
    let text <- readToString path
    pure (some text)
  else
    pure none

def rewriteIfExists (path : Path) (body : Text) : FileM Unit := do
  if <- pathExists path .statAgain then
    replaceFile path body
  else
    pure ()

def upsertAllowlistFile (parser : PubkeyParser) (npub : Text) : FileM Unit := do
  let pk <- Faulty.lift (validNpub parser npub)
  let file <- readIfExists .allowlist
  replaceFile .allowlist (fsyncLines (upsertLines parser pk npub (file.getD [])))

def approve (parser : PubkeyParser) (npub : Text) : FileM Unit := do
  let _ <- Faulty.lift (validNpub parser npub)
  let file <- readIfExists .queue
  let rows := file.elim [] loadQueue
  rewriteIfExists .queue (writeQueue (retainOthers npub rows))
  upsertAllowlistFile parser npub

/-!
## Replacing a file
-/

section Replace

variable {fates : Fates} {disk : Disk} {path : Path} {body : Text}

structure Ready (fates : Fates) (path : Path) : Prop where
  create : fates (path.tmp, .create) = .done
  write : fates (path.tmp, .write) = .done
  sync : fates (path.tmp, .sync) = .done
  rename : fates (path.tmp, .rename) = .done

def LivesOn (fates : Fates) (path : Path) : Prop :=
  (fates (path, .reopen)).survives = true ∧
    (fates (path, .reopen) = .done -> (fates (path, .resync)).survives = true)

theorem syncAll_done {op : FileOp} (h : fates (path, op) = .done) :
    syncAll path op fates disk = (.ok (), disk) :=
  Faulty.attempt_done h rfl

theorem syncAll_failed {op : FileOp} {progress : Nat} (h : fates (path, op) = .failed progress) :
    syncAll path op fates disk = (.error (.error ioFailure), disk) := by
  unfold syncAll Faulty.attempt
  rw [h]
  rfl

theorem syncAll_crashed {op : FileOp} {progress : Nat} (h : fates (path, op) = .crashed progress) :
    syncAll path op fates disk = (.error .crash, disk) := by
  unfold syncAll Faulty.attempt
  rw [h]
  rfl

theorem settleFile_eq (fates : Fates) (disk : Disk) (path : Path) :
    (LivesOn fates path ∧ settleFile path fates disk = (.ok (), disk)) ∨
      (¬ LivesOn fates path ∧ settleFile path fates disk = (.error .crash, disk)) := by
  unfold LivesOn settleFile Faulty.tolerate
  cases hreopen : fates (path, .reopen) with
  | done =>
    rw [Faulty.bind_ok (syncAll_done hreopen)]
    cases hresync : fates (path, .resync) with
    | done =>
      rw [syncAll_done hresync]
      exact Or.inl ⟨⟨rfl, fun _ => rfl⟩, rfl⟩
    | failed progress =>
      rw [syncAll_failed hresync]
      exact Or.inl ⟨⟨rfl, fun _ => rfl⟩, rfl⟩
    | crashed progress =>
      rw [syncAll_crashed hresync]
      exact Or.inr ⟨fun hlives => Bool.false_ne_true (hlives.right rfl), rfl⟩
  | failed progress =>
    rw [Faulty.bind_stop (syncAll_failed hreopen)]
    exact Or.inl ⟨⟨rfl, nofun⟩, rfl⟩
  | crashed progress =>
    rw [Faulty.bind_stop (syncAll_crashed hreopen)]
    exact Or.inr ⟨fun hlives => Bool.false_ne_true hlives.left, rfl⟩

def replaced (disk : Disk) (path : Path) (body : Text) : Disk :=
  Function.update (Function.update disk path (some body)) path.tmp none

theorem create_done (h : fates (path, .create) = .done) :
    create path fates disk = (.ok (), Function.update disk path (some [])) :=
  Faulty.attempt_done h rfl

theorem writeAll_done (h : fates (path, .write) = .done) :
    writeAll path body fates disk = (.ok (), Function.update disk path (some body)) :=
  Faulty.attempt_done h rfl

theorem rename_done {target : Path} (h : fates (path, .rename) = .done)
    (hbody : disk path = some body) :
    rename path target fates disk = (.ok (),
        Function.update (Function.update disk target (some body)) path none) := by
  apply Faulty.attempt_done h
  rw [hbody]

theorem replaceFile_eq_rename (hcreate : fates (path.tmp, .create) = .done)
    (hwrite : fates (path.tmp, .write) = .done)
    (hsync : fates (path.tmp, .sync) = .done) :
    replaceFile path body fates disk = (rename path.tmp path >>= fun _ => settleFile path) fates
        (Function.update disk path.tmp (some body)) := by
  unfold replaceFile
  rw [Faulty.bind_ok (create_done hcreate), Faulty.bind_ok (writeAll_done hwrite),
    Faulty.bind_ok (syncAll_done hsync), Function.update_idem]

theorem replaceFile_of_ready (h : Ready fates path) (hpath : path.tmp ≠ path) :
    replaceFile path body fates disk = settleFile path fates (replaced disk path body) := by
  have hbody : Function.update disk path.tmp (some body) path.tmp = some body :=
    Function.update_self _ _ _
  rw [replaceFile_eq_rename h.create h.write h.sync,
    Faulty.bind_ok (rename_done h.rename hbody), Function.update_comm hpath,
    Function.update_idem]
  rfl

theorem replaceFile_of_not_ready (h : ¬ Ready fates path) :
    exists stop disk', replaceFile path body fates disk = (.error stop, disk') ∧
      forall other, other ≠ path.tmp -> disk' other = disk other := by
  by_cases hcreate : fates (path.tmp, .create) = .done
  · by_cases hwrite : fates (path.tmp, .write) = .done
    · by_cases hsync : fates (path.tmp, .sync) = .done
      · rw [replaceFile_eq_rename hcreate hwrite hsync]
        have hrename : fates (path.tmp, .rename) ≠ .done := by
          intro hrename
          exact h ⟨hcreate, hwrite, hsync, hrename⟩
        rcases Faulty.attempt_not_done hrename with ⟨stop, progress, heq⟩
        refine ⟨stop, _, Faulty.bind_stop heq, ?_⟩
        intro other hother
        exact Function.update_of_ne hother _ _
      · unfold replaceFile
        rw [Faulty.bind_ok (create_done hcreate), Faulty.bind_ok (writeAll_done hwrite)]
        rcases Faulty.attempt_not_done hsync with ⟨stop, progress, heq⟩
        refine ⟨stop, _, Faulty.bind_stop heq, ?_⟩
        intro other hother
        exact (Function.update_of_ne hother _ _).trans (Function.update_of_ne hother _ _)
    · unfold replaceFile
      rw [Faulty.bind_ok (create_done hcreate)]
      rcases Faulty.attempt_not_done hwrite with ⟨stop, progress, heq⟩
      refine ⟨stop, _, Faulty.bind_stop heq, ?_⟩
      intro other hother
      exact (Function.update_of_ne hother _ _).trans (Function.update_of_ne hother _ _)
  · unfold replaceFile
    rcases Faulty.attempt_not_done hcreate with ⟨stop, progress, heq⟩
    exact ⟨stop, _, Faulty.bind_stop heq, fun _ _ => rfl⟩

end Replace

/-!
## Reading a file
-/

section Read

variable {fates : Fates} {disk : Disk} {path : Path}

def seen (fates : Fates) (disk : Disk) (path : Path) : Option Text :=
  if fates (path, .stat) = .done then disk path else none

def ReadPasses (fates : Fates) (disk : Disk) (path : Path) : Prop :=
  (fates (path, .stat)).survives = true ∧
    (seen fates disk path ≠ none -> fates (path, .read) = .done)

theorem pathExists_done {op : FileOp} (h : fates (path, op) = .done) :
    pathExists path op fates disk = (.ok (disk path).isSome, disk) := by
  unfold pathExists
  rw [h]

theorem pathExists_failed {op : FileOp} {progress : Nat} (h : fates (path, op) = .failed progress) :
    pathExists path op fates disk = (.ok false, disk) := by
  unfold pathExists
  rw [h]

theorem pathExists_crashed {op : FileOp} {progress : Nat}
    (h : fates (path, op) = .crashed progress) :
    pathExists path op fates disk = (.error .crash, disk) := by
  unfold pathExists
  rw [h]

theorem readIfExists_eq (fates : Fates) (disk : Disk) (path : Path) :
    (ReadPasses fates disk path ∧
        readIfExists path fates disk = (.ok (seen fates disk path), disk)) ∨
      (¬ ReadPasses fates disk path ∧
        exists stop, readIfExists path fates disk = (.error stop, disk)) := by
  unfold ReadPasses readIfExists
  cases hstat : fates (path, .stat) with
  | crashed progress =>
    rw [Faulty.bind_stop (pathExists_crashed hstat)]
    exact Or.inr ⟨fun h => Bool.false_ne_true h.left, .crash, rfl⟩
  | failed progress =>
    have hseen : seen fates disk path = none := if_neg (by rw [hstat]; nofun)
    rw [Faulty.bind_ok (pathExists_failed hstat), hseen]
    exact Or.inl ⟨⟨rfl, fun h => absurd rfl h⟩, rfl⟩
  | done =>
    have hseen : seen fates disk path = disk path := if_pos hstat
    rw [Faulty.bind_ok (pathExists_done hstat), hseen]
    cases hfile : disk path with
    | none => exact Or.inl ⟨⟨rfl, fun h => absurd rfl h⟩, rfl⟩
    | some text =>
      by_cases hread : fates (path, .read) = .done
      · have hact : readToString path fates disk = (.ok text, disk) := by
          apply Faulty.attempt_done hread
          rw [hfile]
          rfl
        exact Or.inl ⟨⟨rfl, fun _ => hread⟩, Faulty.bind_ok hact⟩
      · rcases Faulty.attempt_not_done hread with ⟨stop, progress, heq⟩
        exact Or.inr ⟨fun h => hread (h.right nofun), stop, Faulty.bind_stop heq⟩

end Read

/-!
## The approval
-/

def InQueue (npub : Text) (disk : Disk) : Prop :=
  exists text, disk .queue = some text ∧ exists row, row ∈ loadQueue text ∧ row.npub = npub

def OnAllowlist (parser : PubkeyParser) (pk : Pubkey) (disk : Disk) : Prop :=
  exists keys, parser.parseAllowlistFile [] (disk .allowlist) = .ok keys ∧ pk ∈ keys

def QueueReplaced (fates : Fates) (disk : Disk) : Prop :=
  ReadPasses fates disk .queue ∧ fates (.queue, .statAgain) = .done ∧ Ready fates .queue

def QueuePassed (fates : Fates) (disk : Disk) : Prop :=
  ReadPasses fates disk .queue ∧ (fates (.queue, .statAgain)).survives = true ∧
    (fates (.queue, .statAgain) = .done -> Ready fates .queue ∧ LivesOn fates .queue)

def AllowlistReplaced (fates : Fates) (disk : Disk) : Prop :=
  QueuePassed fates disk ∧ ReadPasses fates disk .allowlist ∧ Ready fates .allowlist

def Finishes (fates : Fates) (disk : Disk) : Prop :=
  AllowlistReplaced fates disk ∧ LivesOn fates .allowlist

section Approve

variable {parser : PubkeyParser} {npub : Text} {pk : Pubkey} {fates : Fates}
  {disk : Disk}

theorem lift_ok {α : Type} {x : Except QueueError α} {a : α} (h : x = .ok a) :
    (Faulty.lift x : FileM α) fates disk = (.ok a, disk) := by
  unfold Faulty.lift
  rw [h]

def approvedBody (parser : PubkeyParser) (pk : Pubkey) (npub : Text) (fates : Fates)
    (disk : Disk) : Text :=
  fsyncLines (upsertLines parser pk npub ((seen fates disk .allowlist).getD []))

theorem upsertAllowlistFile_eq (hpk : validNpub parser npub = .ok pk)
    (fates : Fates) (disk : Disk) :
    (ReadPasses fates disk .allowlist ∧ Ready fates .allowlist ∧
        upsertAllowlistFile parser npub fates disk =
          settleFile .allowlist fates (replaced disk .allowlist
            (approvedBody parser pk npub fates disk))) ∨
      (¬ (ReadPasses fates disk .allowlist ∧ Ready fates .allowlist) ∧ exists stop disk',
          upsertAllowlistFile parser npub fates disk = (.error stop, disk') ∧
          forall other, other ≠ .allowlistTmp -> disk' other = disk other) := by
  unfold upsertAllowlistFile
  rw [Faulty.bind_ok (lift_ok hpk)]
  rcases readIfExists_eq fates disk .allowlist with ⟨hpass, hread⟩ | ⟨hpass, stop, hread⟩
  · rw [Faulty.bind_ok hread]
    by_cases hready : Ready fates .allowlist
    · exact Or.inl ⟨hpass, hready, replaceFile_of_ready hready nofun⟩
    · rcases replaceFile_of_not_ready hready with ⟨stop, disk', heq, hother⟩
      exact Or.inr ⟨fun h => hready h.right, stop, disk', heq, hother⟩
  · exact Or.inr ⟨fun h => hpass h.left, stop, disk, Faulty.bind_stop hread, fun _ _ => rfl⟩

def remainingBody (npub : Text) (fates : Fates) (disk : Disk) : Text :=
  writeQueue (retainOthers npub ((seen fates disk .queue).elim [] loadQueue))

def QueueAfter (npub : Text) (fates : Fates) (disk disk' : Disk) : Prop :=
  (QueueReplaced fates disk -> disk' .queue = some (remainingBody npub fates disk)) ∧
    (¬ QueueReplaced fates disk -> disk' .queue = disk .queue)

def AllowlistAfter (parser : PubkeyParser) (pk : Pubkey) (npub : Text)
    (fates : Fates) (disk disk' : Disk) : Prop :=
  (AllowlistReplaced fates disk ->
      disk' .allowlist = some (approvedBody parser pk npub fates disk)) ∧
    (¬ AllowlistReplaced fates disk -> disk' .allowlist = disk .allowlist)

variable {disk' : Disk}

theorem queueAfter_of_replaced (h : QueueReplaced fates disk)
    (hqueue : disk' .queue = some (remainingBody npub fates disk)) :
    QueueAfter npub fates disk disk' :=
  ⟨fun _ => hqueue, fun hnot => absurd h hnot⟩

theorem queueAfter_of_not_replaced (h : ¬ QueueReplaced fates disk)
    (hqueue : disk' .queue = disk .queue) : QueueAfter npub fates disk disk' :=
  ⟨fun hreplaced => absurd hreplaced h, fun _ => hqueue⟩

theorem rewriteIfExists_eq (npub : Text) (hqueue : disk .queue ≠ none)
    (hread : ReadPasses fates disk .queue) :
    exists result disk', rewriteIfExists .queue (remainingBody npub fates disk) fates disk =
        (result, disk') ∧
      QueueAfter npub fates disk disk' ∧ disk' .allowlist = disk .allowlist ∧
      (result = .ok () <-> QueuePassed fates disk) := by
  cases hagain : fates (.queue, .statAgain) with
  | crashed progress =>
    refine ⟨.error .crash, disk, Faulty.bind_stop (pathExists_crashed hagain),
      queueAfter_of_not_replaced ?_ rfl, rfl, iff_of_false nofun ?_⟩
    · intro hreplaced
      exact Fate.noConfusion (hagain.symm.trans hreplaced.right.left)
    · intro hpassed
      have hsurvives := hpassed.right.left
      rw [hagain] at hsurvives
      cases hsurvives
  | failed progress =>
    have hnot : fates (.queue, .statAgain) ≠ .done := by
      rw [hagain]
      nofun
    refine ⟨.ok (), disk, Faulty.bind_ok (pathExists_failed hagain),
      queueAfter_of_not_replaced ?_ rfl, rfl, iff_of_true rfl ?_⟩
    · intro hreplaced
      exact hnot hreplaced.right.left
    · exact ⟨hread, by rw [hagain]; rfl, fun hdone => absurd hdone hnot⟩
  | done =>
    have heq : rewriteIfExists .queue (remainingBody npub fates disk) fates disk =
        replaceFile .queue (remainingBody npub fates disk) fates disk := by
      unfold rewriteIfExists
      rw [Faulty.bind_ok (pathExists_done hagain), if_pos (Option.isSome_iff_ne_none.mpr hqueue)]
    rw [heq]
    by_cases hready : Ready fates .queue
    · have hreplaced : QueueReplaced fates disk := ⟨hread, hagain, hready⟩
      rw [replaceFile_of_ready hready nofun]
      rcases settleFile_eq fates (replaced disk .queue (remainingBody npub fates disk)) .queue with
        ⟨hlives, hsettle⟩ | ⟨hlives, hsettle⟩
      · refine ⟨_, _, hsettle, queueAfter_of_replaced hreplaced rfl, rfl, iff_of_true rfl ?_⟩
        exact ⟨hread, by rw [hagain]; rfl, fun _ => ⟨hready, hlives⟩⟩
      · refine ⟨_, _, hsettle, queueAfter_of_replaced hreplaced rfl, rfl, iff_of_false nofun ?_⟩
        intro hpassed
        exact hlives (hpassed.right.right hagain).right
    · rcases replaceFile_of_not_ready hready with ⟨stop, disk', hreplace, hother⟩
      refine ⟨_, disk', hreplace, queueAfter_of_not_replaced ?_ (hother _ nofun),
        hother _ nofun, iff_of_false nofun ?_⟩
      · intro hreplaced
        exact hready hreplaced.right.right
      · intro hpassed
        exact hready (hpassed.right.right hagain).left

theorem approvedBody_congr (h : disk' .allowlist = disk .allowlist) :
    approvedBody parser pk npub fates disk' =
      approvedBody parser pk npub fates disk := by
  unfold approvedBody seen
  rw [h]

theorem readPasses_congr (fates : Fates) {path : Path} (h : disk' path = disk path) :
    ReadPasses fates disk' path <-> ReadPasses fates disk path := by
  unfold ReadPasses seen
  rw [h]

theorem upsertAllowlistFile_outcome (hpk : validNpub parser npub = .ok pk)
    (hpassed : QueuePassed fates disk) (hallowlist : disk' .allowlist = disk .allowlist)
    :
    exists result disk'', upsertAllowlistFile parser npub fates disk' = (result, disk'') ∧
      disk'' .queue = disk' .queue ∧
      AllowlistAfter parser pk npub fates disk disk'' ∧
      (result = .ok () <-> Finishes fates disk) := by
  have hreads := readPasses_congr fates hallowlist
  rcases upsertAllowlistFile_eq hpk fates disk' with
    ⟨hread, hready, heq⟩ | ⟨hnot, stop, disk'', heq, hother⟩
  · have hreplaced : AllowlistReplaced fates disk :=
      ⟨hpassed, hreads.mp hread, hready⟩
    rw [heq, approvedBody_congr hallowlist]
    rcases settleFile_eq fates (replaced disk' .allowlist
      (approvedBody parser pk npub fates disk)) .allowlist with
      ⟨hlives, hsettle⟩ | ⟨hlives, hsettle⟩
    · exact ⟨_, _, hsettle, rfl, ⟨fun _ => rfl, fun h => absurd hreplaced h⟩,
        iff_of_true rfl ⟨hreplaced, hlives⟩⟩
    · exact ⟨_, _, hsettle, rfl, ⟨fun _ => rfl, fun h => absurd hreplaced h⟩,
        iff_of_false nofun fun h => hlives h.right⟩
  · have hreplaced : ¬ AllowlistReplaced fates disk := by
      intro h
      exact hnot ⟨hreads.mpr h.right.left, h.right.right⟩
    exact ⟨_, disk'', heq, hother _ nofun, ⟨fun h => absurd h hreplaced,
        fun _ => (hother .allowlist nofun).trans hallowlist⟩,
      iff_of_false nofun fun h => hreplaced h.left⟩

theorem approve_outcome (hpk : validNpub parser npub = .ok pk) (hqueue : disk .queue ≠ none) :
    exists result disk', approve parser npub fates disk = (result, disk') ∧
      QueueAfter npub fates disk disk' ∧
      AllowlistAfter parser pk npub fates disk disk' ∧
      (result = .ok () <-> Finishes fates disk) := by
  unfold approve
  rw [Faulty.bind_ok (lift_ok hpk)]
  rcases readIfExists_eq fates disk .queue with ⟨hread, heq⟩ | ⟨hread, stop, heq⟩
  · rw [Faulty.bind_ok heq]
    rcases rewriteIfExists_eq npub hqueue hread with
      ⟨result, disk', hrewrite, hafter, hallowlist, hresult⟩
    have hrewrite' : rewriteIfExists .queue (writeQueue (retainOthers npub
        ((seen fates disk .queue).elim [] loadQueue))) fates disk = (result, disk') := hrewrite
    cases result with
    | ok u =>
      have hpassed : QueuePassed fates disk := hresult.mp rfl
      rcases upsertAllowlistFile_outcome hpk hpassed hallowlist with
        ⟨result, disk'', hupsert, hsame, hafter', hfinish⟩
      refine ⟨result, disk'', (Faulty.bind_ok hrewrite').trans hupsert, ?_, hafter', hfinish⟩
      unfold QueueAfter
      rw [hsame]
      exact hafter
    | error stop =>
      have hpassed : ¬ QueuePassed fates disk := by
        intro h
        cases hresult.mpr h
      exact ⟨_, disk', Faulty.bind_stop hrewrite', hafter,
        ⟨fun h => absurd h.left hpassed, fun _ => hallowlist⟩,
        iff_of_false nofun fun h => hpassed h.left.left⟩
  · have hpassed : ¬ QueuePassed fates disk := fun h => hread h.left
    exact ⟨_, disk, Faulty.bind_stop heq, queueAfter_of_not_replaced (fun h => hread h.left) rfl,
      ⟨fun h => absurd h.left hpassed, fun _ => rfl⟩,
      iff_of_false nofun fun h => hpassed h.left.left⟩

/-!
## Lost applicants
-/

def KeyListed (parser : PubkeyParser) (pk : Pubkey) (fates : Fates) (disk : Disk) : Prop :=
  (AllowlistReplaced fates disk ∧ Readable parser ((seen fates disk .allowlist).getD [])) ∨
    (¬ AllowlistReplaced fates disk ∧ OnAllowlist parser pk disk)

def ApprovalSafe (parser : PubkeyParser) (npub : Text) (pk : Pubkey)
    (outcome : Except (Stop QueueError) Unit × Disk) : Prop :=
  (InQueue npub outcome.2 ∨ OnAllowlist parser pk outcome.2) ∧ (outcome.1 = .ok () ->
      OnAllowlist parser pk outcome.2 ∧ ¬ InQueue npub outcome.2)

theorem onAllowlist_of_some {text : Text} (h : disk .allowlist = some text) :
    OnAllowlist parser pk disk <-> Readable parser text ∧ ListsKey parser text pk := by
  unfold OnAllowlist
  rw [h]
  constructor
  · intro hon
    rcases hon with ⟨keys, hparse, hmem⟩
    exact ⟨parseAllowlistFile_ok.mp ⟨keys, hparse⟩, (mem_of_parseAllowlistFile hparse).mp hmem⟩
  · intro hon
    rcases parseAllowlistFile_ok.mpr hon.left with ⟨keys, hparse⟩
    exact ⟨keys, hparse, (mem_of_parseAllowlistFile hparse).mpr hon.right⟩

theorem not_inQueue_remaining (h : disk' .queue = some (remainingBody npub fates disk)) :
    ¬ InQueue npub disk' := by
  intro hin
  rcases hin with ⟨text, htext, row, hrow, hnpub⟩
  rw [h] at htext
  have hrows : (seen fates disk .queue).elim [] loadQueue =
      loadQueue ((seen fates disk .queue).getD []) := by
    cases seen fates disk .queue with
    | none => rfl
    | some text => rfl
  have hmem : row ∈ rowsOf npub text :=
    List.mem_filter.mpr ⟨hrow, decide_eq_true hnpub⟩
  rw [<- Option.some.inj htext, remainingBody, hrows, rowsOf_retainOthers] at hmem
  cases hmem

theorem inQueue_after (hin : InQueue npub disk) (h : QueueAfter npub fates disk disk') :
    InQueue npub disk' <-> ¬ QueueReplaced fates disk := by
  constructor
  · intro hin' hreplaced
    exact not_inQueue_remaining (h.left hreplaced) hin'
  · intro hnot
    unfold InQueue
    rw [h.right hnot]
    exact hin

theorem onAllowlist_after (hpk : validNpub parser npub = .ok pk)
    (h : AllowlistAfter parser pk npub fates disk disk') :
    OnAllowlist parser pk disk' <-> KeyListed parser pk fates disk := by
  by_cases hreplaced : AllowlistReplaced fates disk
  · have hlists : ListsKey parser (approvedBody parser pk npub fates disk) pk :=
      (listsKey_upsert hpk).mpr (Or.inr rfl)
    rw [onAllowlist_of_some (h.left hreplaced), and_iff_left hlists, approvedBody,
      readable_upsert hpk]
    simp [KeyListed, hreplaced]
  · have hsame : OnAllowlist parser pk disk' <-> OnAllowlist parser pk disk := by
      unfold OnAllowlist
      rw [h.right hreplaced]
    rw [hsame]
    simp [KeyListed, hreplaced]

/-- An approval is safe exactly if, once the queue is replaced, the key ends on a
readable allowlist, and no failed test makes it pass over the queue to a success. -/
theorem approval_safe_iff (hpk : validNpub parser npub = .ok pk) (hin : InQueue npub disk) :
    ApprovalSafe parser npub pk (approve parser npub fates disk) <->
      (QueueReplaced fates disk -> KeyListed parser pk fates disk) ∧
        (Finishes fates disk -> fates (.queue, .statAgain) = .done) := by
  have hqueue : disk .queue ≠ none := by
    rcases hin with ⟨text, htext, _⟩
    rw [htext]
    nofun
  rcases approve_outcome hpk hqueue with ⟨result, disk', heq, hqueueAfter, hallowlistAfter, hresult⟩
  unfold ApprovalSafe
  rw [heq]
  show (InQueue npub disk' ∨ OnAllowlist parser pk disk') ∧
    (result = .ok () -> OnAllowlist parser pk disk' ∧ ¬ InQueue npub disk') <-> _
  rw [inQueue_after hin hqueueAfter, onAllowlist_after hpk hallowlistAfter, hresult,
    not_not, <- imp_iff_not_or]
  constructor
  · intro h
    refine ⟨h.left, ?_⟩
    intro hfinish
    exact (h.right hfinish).right.right.left
  · intro h
    refine ⟨h.left, ?_⟩
    intro hfinish
    have hdone := h.right hfinish
    have hpassed : QueuePassed fates disk := hfinish.left.left
    have hreplaced : QueueReplaced fates disk :=
      ⟨hpassed.left, hdone, (hpassed.right.right hdone).left⟩
    exact ⟨h.left hreplaced, hreplaced⟩

end Approve

namespace Sample

def pendingDisk : Disk
  | .queue => some "npub1a,a@x\n".toList
  | .allowlist => some "npub1b\n".toList
  | _ => none

def allDone : Fates :=
  fun _ => .done

def diesBetween : Fates
  | (.queue, .reopen) => .crashed 0
  | _ => .done

theorem inQueue_pendingDisk : InQueue npubA pendingDisk :=
  ⟨_, rfl, { npub := npubA, email := "a@x".toList }, List.mem_cons_self, rfl⟩

theorem keyListed_allDone : KeyListed parser 1 allDone pendingDisk := by
  refine Or.inl ⟨⟨⟨⟨rfl, fun _ => rfl⟩, rfl, fun _ => ⟨⟨rfl, rfl, rfl, rfl⟩, rfl,
    fun _ => rfl⟩⟩, ⟨rfl, fun _ => rfl⟩, ⟨rfl, rfl, rfl, rfl⟩⟩, ?_⟩
  show Readable parser "npub1b\n".toList
  decide

theorem approval_without_failure_safe :
    InQueue npubA pendingDisk ∧
      ApprovalSafe parser npubA 1 (approve parser npubA allDone pendingDisk) :=
  ⟨inQueue_pendingDisk, (approval_safe_iff validNpub_npubA inQueue_pendingDisk).mpr
    ⟨fun _ => keyListed_allDone, fun _ => rfl⟩⟩

theorem applicant_lost_between_files :
    InQueue npubA pendingDisk ∧ validNpub parser npubA = .ok 1 ∧
      (approve parser npubA diesBetween pendingDisk).2 .queue = some [] ∧
      (approve parser npubA diesBetween pendingDisk).2 .allowlist = some "npub1b\n".toList ∧
      ¬ ApprovalSafe parser npubA 1 (approve parser npubA diesBetween pendingDisk) := by
  refine ⟨inQueue_pendingDisk, rfl, rfl, rfl, ?_⟩
  intro hsafe
  rcases hsafe.left with ⟨text, htext, row, hrow, _⟩ | ⟨keys, hparse, hmem⟩
  · cases htext
    cases hrow
  · cases hparse
    exact absurd hmem (by decide)

end Sample

end Queue
end Splora
