import Splora.Queue.Approve
import Splora.Queue.Submit

/-!
# Two processes on one queue file

Submits hold the disk lock of their process; approvals and rejections run in another one without
it.  Both read the queue, write the same temporary file and rename it, with any steps of the
other in between.
-/

namespace Splora
namespace Queue

open Foundation Auth

inductive Process where
  | server
  | operator
deriving DecidableEq, Repr

inductive Job where
  | submit (sub : Submission)
  | approve (npub : Text)
  | reject (npub : Text)

inductive Done where
  | added (row : QueueRow)
  | removed (npub : Text)
deriving DecidableEq, Repr

def Done.npub : Done -> Text
  | added row => row.npub
  | removed npub => npub

/-- The process runs such jobs, and the arguments pass the checks before any file is
touched. -/
def Job.starts (parser : PubkeyParser) : Process -> Job -> Bool
  | .server, submit sub => (validSubmission parser sub).toBool
  | .operator, approve npub => (validNpub parser npub).toBool
  | .operator, reject npub => (validNpub parser npub).toBool
  | _, _ => false

/-- `currentBytes` is the size of the file when a submit asks for it. -/
def Job.plan (caps : QueueCaps) (currentBytes : Nat) (rows : List QueueRow) :
    Job -> Except QueueError (Done × List QueueRow)
  | submit sub => do
      let (row, rows) <- submitRows caps rows currentBytes sub.npub sub.email
      pure (.added row, rows)
  | approve npub => pure (.removed npub, retainOthers npub rows)
  | reject npub => do
      ensure ((retainOthers npub rows).length ≠ rows.length) .notFound
      pure (.removed npub, retainOthers npub rows)

inductive Phase where
  | idle
  | loaded (job : Job) (text : Text)
  | planned (done : Done) (rows : List QueueRow) (text : Text)
  | written (done : Done) (rows : List QueueRow) (text : Text)

structure Shared where
  queue : Text
  tmp : Option Text
  phase : Process -> Phase
  log : List Done

def Shared.start (queue : Text) (tmp : Option Text) : Shared where
  queue := queue
  tmp := tmp
  phase _ := .idle
  log := []

inductive FileEvent where
  | read (process : Process) (job : Job)
  | stat (process : Process)
  | write (process : Process)
  | rename (process : Process)

def Shared.enter (st : Shared) (process : Process) (phase : Phase) : Shared :=
  { st with phase := Function.update st.phase process phase }

def Shared.rename (st : Shared) (process : Process) (done : Done) : Shared :=
  match st.tmp with
  | none => st.enter process .idle
  | some body =>
    { st.enter process .idle with
      queue := body
      tmp := none
      log := st.log ++ [done] }

def Shared.step (parser : PubkeyParser) (caps : QueueCaps) (st : Shared) :
    FileEvent -> Shared
  | .read process job =>
    match st.phase process, job.starts parser process with
    | .idle, true => st.enter process (.loaded job st.queue)
    | _, _ => st
  | .stat process =>
    match st.phase process with
    | .loaded job text =>
      match job.plan caps (String.utf8Len st.queue) (loadQueue text) with
      | .ok (done, rows) => st.enter process (.planned done rows text)
      | .error _ => st.enter process .idle
    | _ => st
  | .write process =>
    match st.phase process with
    | .planned done rows text =>
      { st.enter process (.written done rows text) with
        tmp := some (writeQueue rows) }
    | _ => st
  | .rename process =>
    match st.phase process with
    | .written done _ _ => st.rename process done
    | _ => st

def Shared.run (parser : PubkeyParser) (caps : QueueCaps) (st : Shared)
    (events : List FileEvent) : Shared :=
  events.foldl (Shared.step parser caps) st

/-!
## What should hold
-/

def lastDone (npub : Text) (log : List Done) : Option Done :=
  (log.filter fun done => done.npub = npub).getLast?

def Shows (text : Text) : Done -> Prop
  | .added row => settle row ∈ loadQueue text
  | .removed npub => rowsOf npub text = []

def NoLostUpdates (st : Shared) : Prop :=
  forall npub done, lastDone npub st.log = some done -> Shows st.queue done

/-- The queue is still what the process has read, and the temporary file what it has written. -/
def FreshRename (st : Shared) (process : Process) : Prop :=
  forall done rows text body, st.phase process = .written done rows text ->
    st.tmp = some body -> st.queue = text ∧ body = writeQueue rows

def FreshStep (st : Shared) : FileEvent -> Prop
  | .rename process => FreshRename st process
  | _ => True

def FreshRun (parser : PubkeyParser) (caps : QueueCaps) :
    Shared -> List FileEvent -> Prop
  | _, [] => True
  | st, event :: events =>
    FreshStep st event ∧ FreshRun parser caps (st.step parser caps event) events

/-!
## One job
-/

section Job

variable {parser : PubkeyParser} {caps : QueueCaps} {currentBytes : Nat}
  {text npub : Text} {done : Done} {rows : List QueueRow} {job : Job}
  {process : Process}

def Plans (parser : PubkeyParser) (caps : QueueCaps) (text : Text) (done : Done)
    (rows : List QueueRow) : Prop :=
  exists process job currentBytes, Job.starts parser process job = true ∧
    job.plan caps currentBytes (loadQueue text) = .ok (done, rows)

theorem writable_of_starts {sub : Submission} (h : Job.starts parser process (.submit sub) = true) :
    Writable { npub := sub.npub, email := sub.email } := by
  cases process with
  | operator => cases h
  | server =>
    cases hvalid : validSubmission parser sub with
    | error e =>
      rw [Job.starts, hvalid] at h
      cases h
    | ok pk => exact writable_of_validSubmission hvalid

theorem shows_of_plans (h : Plans parser caps text done rows) :
    Shows (writeQueue rows) done ∧ forall other, other ≠ done.npub ->
        rowsOf other (writeQueue rows) = rowsOf other text := by
  rcases h with ⟨process, job, currentBytes, hstarts, hplan⟩
  cases job with
  | submit sub =>
    rcases bind_eq_ok.mp hplan with ⟨⟨row, rows'⟩, hrows, hpure⟩
    rw [pure_eq_ok] at hpure
    rcases Prod.mk.inj hpure with ⟨hdone, hrows'⟩
    have hplaced := loadQueue_submitRows (writable_of_starts hstarts) hrows
    have hnpub : row.npub = sub.npub := by
      rw [(submitRows_cases hrows).left]
    rw [<- hdone, <- hrows']
    refine ⟨hplaced.mem, ?_⟩
    intro other hother
    have hother' : other ≠ row.npub := hother
    rw [hnpub] at hother'
    exact hplaced.filter_of_ne hnpub hother'
  | approve npub =>
    rcases Prod.mk.inj (pure_eq_ok.mp hplan) with ⟨hdone, hrows⟩
    rw [<- hdone, <- hrows]
    exact ⟨rowsOf_retainOthers npub text, fun _ hother => rowsOf_retainOthers_of_ne hother⟩
  | reject npub =>
    rcases bind_eq_ok.mp hplan with ⟨_, _, hpure⟩
    rcases Prod.mk.inj (pure_eq_ok.mp hpure) with ⟨hdone, hrows⟩
    rw [<- hdone, <- hrows]
    exact ⟨rowsOf_retainOthers npub text, fun _ hother => rowsOf_retainOthers_of_ne hother⟩

theorem shows_congr {text' : Text} (h : rowsOf done.npub text' = rowsOf done.npub text) :
    Shows text' done <-> Shows text done := by
  cases done with
  | added row =>
    show settle row ∈ loadQueue text' <-> settle row ∈ loadQueue text
    rw [mem_loadQueue_iff_mem_rowsOf, mem_loadQueue_iff_mem_rowsOf]
    exact iff_of_eq (congrArg _ h)
  | removed npub =>
    show rowsOf npub text' = [] <-> rowsOf npub text = []
    rw [show rowsOf npub text' = rowsOf npub text from h]

end Job

/-!
## Runs
-/

section Run

variable {parser : PubkeyParser} {caps : QueueCaps} {st : Shared} {text npub : Text}
  {done : Done} {rows : List QueueRow}

theorem lastDone_append (npub : Text) (log : List Done) (done : Done) :
    lastDone npub (log ++ [done]) =
      if done.npub = npub then some done else lastDone npub log := by
  unfold lastDone
  rw [List.filter_append, List.filter_cons]
  by_cases h : done.npub = npub
  · rw [if_pos (decide_eq_true h), if_pos h]
    exact List.getLast?_concat
  · rw [if_neg (by rw [decide_eq_true_eq]; exact h), if_neg h]
    exact congrArg List.getLast? (List.append_nil _)

def PhaseSound (parser : PubkeyParser) (caps : QueueCaps) : Process -> Phase -> Prop
  | _, .idle => True
  | process, .loaded job _ => Job.starts parser process job = true
  | _, .planned done rows text => Plans parser caps text done rows
  | _, .written done rows text => Plans parser caps text done rows

structure Sound (parser : PubkeyParser) (caps : QueueCaps) (st : Shared) : Prop where
  phases : forall process, PhaseSound parser caps process (st.phase process)
  updates : NoLostUpdates st

variable {process : Process}

theorem phases_enter {phase : Phase}
    (h : forall process, PhaseSound parser caps process (st.phase process))
    (hphase : PhaseSound parser caps process phase) (other : Process) :
    PhaseSound parser caps other ((st.enter process phase).phase other) := by
  show PhaseSound parser caps other (Function.update st.phase process phase other)
  by_cases hother : other = process
  · rw [hother, Function.update_self]
    exact hphase
  · rw [Function.update_of_ne hother]
    exact h other

theorem sound_enter {phase : Phase} (h : Sound parser caps st)
    (hphase : PhaseSound parser caps process phase) :
    Sound parser caps (st.enter process phase) where
  phases := phases_enter h.phases hphase
  updates := h.updates

theorem sound_rename (h : Sound parser caps st)
    (hphase : st.phase process = .written done rows text)
    (hfresh : FreshRename st process) :
    Sound parser caps (st.rename process done) := by
  unfold Shared.rename
  cases htmp : st.tmp with
  | none => exact sound_enter h trivial
  | some body =>
    rcases hfresh done rows text body hphase htmp with ⟨hqueue, hbody⟩
    have hplans : Plans parser caps text done rows := by
      have hsound := h.phases process
      rw [hphase] at hsound
      exact hsound
    rcases shows_of_plans hplans with ⟨hshows, hothers⟩
    refine ⟨phases_enter h.phases trivial, ?_⟩
    intro npub done' hlast
    show Shows body done'
    rw [hbody]
    rw [lastDone_append] at hlast
    split at hlast
    · rw [<- Option.some.inj hlast]
      exact hshows
    · rename_i hne
      have hdone' : done'.npub = npub := by
        have hmem := List.mem_of_getLast? hlast
        exact of_decide_eq_true (List.mem_filter.mp hmem).right
      have hsame : rowsOf done'.npub (writeQueue rows) = rowsOf done'.npub st.queue := by
        rw [hqueue]
        apply hothers
        rw [hdone']
        exact Ne.symm hne
      exact (shows_congr hsame).mpr (h.updates npub done' hlast)

theorem sound_step {event : FileEvent} (h : Sound parser caps st)
    (hfresh : FreshStep st event) : Sound parser caps (st.step parser caps event) := by
  cases event with
  | read process job =>
    rw [Shared.step]
    split
    · rename_i hstarts
      exact sound_enter h hstarts
    · exact h
  | stat process =>
    rw [Shared.step]
    split
    · rename_i job text hphase
      have hstarts := h.phases process
      rw [hphase] at hstarts
      split
      · rename_i done rows hplan
        exact sound_enter h ⟨process, job, _, hstarts, hplan⟩
      · exact sound_enter h trivial
    · exact h
  | write process =>
    rw [Shared.step]
    split
    · rename_i done rows text hphase
      have hplans := h.phases process
      rw [hphase] at hplans
      exact ⟨phases_enter h.phases hplans, h.updates⟩
    · exact h
  | rename process =>
    rw [Shared.step]
    split
    · rename_i done rows text hphase
      exact sound_rename h hphase hfresh
    · exact h

theorem sound_run (events : List FileEvent) (st : Shared) (h : Sound parser caps st)
    (hfresh : FreshRun parser caps st events) :
    Sound parser caps (st.run parser caps events) := by
  induction events generalizing st with
  | nil => exact h
  | cons event events ih =>
    exact ih _ (sound_step h hfresh.left) hfresh.right

/-- No update is lost in a run whose renames are all fresh. -/
theorem no_lost_updates (queue : Text) (tmp : Option Text) (events : List FileEvent)
    (hfresh : FreshRun parser caps (Shared.start queue tmp) events) :
    NoLostUpdates ((Shared.start queue tmp).run parser caps events) := by
  have hstart : Sound parser caps (Shared.start queue tmp) :=
    ⟨fun _ => trivial, fun _ _ hlast => nomatch hlast⟩
  exact (sound_run events _ hstart hfresh).updates

end Run

/-!
## A lock for both processes
-/

section Serial

variable {parser : PubkeyParser} {caps : QueueCaps} {st : Shared}

def SerialStep (st : Shared) : FileEvent -> Prop
  | .read process _ => forall other, other ≠ process -> st.phase other = .idle
  | _ => True

def SerialRun (parser : PubkeyParser) (caps : QueueCaps) :
    Shared -> List FileEvent -> Prop
  | _, [] => True
  | st, event :: events =>
    SerialStep st event ∧ SerialRun parser caps (st.step parser caps event) events

def Current (st : Shared) : Phase -> Prop
  | .idle => True
  | .loaded _ text => st.queue = text
  | .planned _ _ text => st.queue = text
  | .written _ rows text => st.queue = text ∧ st.tmp = some (writeQueue rows)

structure InTurn (st : Shared) : Prop where
  alone : forall process, st.phase process ≠ .idle ->
    forall other, other ≠ process -> st.phase other = .idle
  current : forall process, Current st (st.phase process)

theorem inTurn_of_others_idle (process : Process)
    (hothers : forall other, other ≠ process -> st.phase other = .idle)
    (hcurrent : Current st (st.phase process)) : InTurn st where
  alone active hactive other hother := by
    by_cases hprocess : active = process
    · rw [hprocess] at hother
      exact hothers other hother
    · exact absurd (hothers active hprocess) hactive
  current active := by
    by_cases hprocess : active = process
    · rw [hprocess]
      exact hcurrent
    · rw [hothers active hprocess]
      trivial

theorem inTurn_of_update {st' : Shared} {process : Process} {phase : Phase}
    (hothers : forall other, other ≠ process -> st.phase other = .idle)
    (hphase : st'.phase = Function.update st.phase process phase)
    (hcurrent : Current st' phase) : InTurn st' := by
  apply inTurn_of_others_idle process
  · intro other hother
    rw [hphase, Function.update_of_ne hother]
    exact hothers other hother
  · rw [hphase, Function.update_self]
    exact hcurrent

theorem inTurn_step {event : FileEvent} (h : InTurn st)
    (hserial : SerialStep st event) : InTurn (st.step parser caps event) := by
  cases event with
  | read process job =>
    rw [Shared.step]
    split
    · exact inTurn_of_update hserial rfl rfl
    · exact h
  | stat process =>
    rw [Shared.step]
    split
    · rename_i job text hphase
      have hothers := h.alone process (by rw [hphase]; nofun)
      have hcurrent := h.current process
      rw [hphase] at hcurrent
      split
      · exact inTurn_of_update hothers rfl hcurrent
      · exact inTurn_of_update hothers rfl trivial
    · exact h
  | write process =>
    rw [Shared.step]
    split
    · rename_i done rows text hphase
      have hothers := h.alone process (by rw [hphase]; nofun)
      have hcurrent := h.current process
      rw [hphase] at hcurrent
      exact inTurn_of_update hothers rfl ⟨hcurrent, rfl⟩
    · exact h
  | rename process =>
    rw [Shared.step]
    split
    · rename_i done rows text hphase
      have hothers := h.alone process (by rw [hphase]; nofun)
      unfold Shared.rename
      split
      · exact inTurn_of_update hothers rfl trivial
      · exact inTurn_of_update hothers rfl trivial
    · exact h

theorem freshStep_of_inTurn (h : InTurn st) (event : FileEvent) :
    FreshStep st event := by
  cases event with
  | rename process =>
    intro done rows text body hphase htmp
    have hcurrent := h.current process
    rw [hphase] at hcurrent
    rcases hcurrent with ⟨hqueue, hwritten⟩
    rw [hwritten] at htmp
    exact ⟨hqueue, (Option.some.inj htmp).symm⟩
  | read process job => trivial
  | stat process => trivial
  | write process => trivial

theorem freshRun_of_serialRun (events : List FileEvent) (st : Shared) (h : InTurn st)
    (hserial : SerialRun parser caps st events) : FreshRun parser caps st events := by
  induction events generalizing st with
  | nil => trivial
  | cons event events ih =>
    exact ⟨freshStep_of_inTurn h event, ih _ (inTurn_step h hserial.left) hserial.right⟩

end Serial

namespace Sample

def submitA : Job :=
  .submit { ip := none, npub := npubA, email := "a@x".toList, now := 0 }

def rejectB : Job :=
  .reject "npub1b".toList

def pendingB : Shared :=
  .start "npub1b,b@x\n".toList none

def inTurn : List FileEvent :=
  [.read .server submitA, .stat .server, .write .server, .rename .server,
    .read .operator rejectB, .stat .operator, .write .operator, .rename .operator]

def overlapping : List FileEvent :=
  [.read .operator rejectB, .stat .operator, .read .server submitA, .stat .server,
    .write .server, .rename .server, .write .operator, .rename .operator]

theorem freshRun_inTurn : FreshRun parser {} pendingB inTurn := by
  apply freshRun_of_serialRun
  · exact ⟨fun _ h => absurd rfl h, fun _ => trivial⟩
  · refine ⟨fun _ _ => rfl, trivial, trivial, trivial, ?_, trivial, trivial, trivial,
      trivial⟩
    intro other hother
    cases other with
    | server => rfl
    | operator => exact absurd rfl hother

theorem nothing_lost_in_turn :
    FreshRun parser {} pendingB inTurn ∧ NoLostUpdates (pendingB.run parser {} inTurn) :=
  ⟨freshRun_inTurn, no_lost_updates _ _ inTurn freshRun_inTurn⟩

/-- The row was returned, nobody has approved or rejected its key, and the queue is empty. -/
theorem submitted_row_lost :
    (pendingB.run parser {} overlapping).log = [.added { npub := npubA, email := "a@x".toList },
          .removed "npub1b".toList] ∧
      (pendingB.run parser {} overlapping).queue = [] ∧
      ¬ NoLostUpdates (pendingB.run parser {} overlapping) := by
  refine ⟨rfl, rfl, ?_⟩
  intro hupdates
  have hshows : { npub := npubA, email := "a@x".toList : QueueRow } ∈ loadQueue [] :=
    hupdates npubA (.added { npub := npubA, email := "a@x".toList }) rfl
  cases hshows

end Sample

end Queue
end Splora
