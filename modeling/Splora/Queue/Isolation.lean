import Splora.Queue.Submit

/-!
# Submitters do not touch each other's rows

Whatever an email contains, a submit changes the row of its own key only.  It holds the email as
submitted if this is one trimmed line.
-/

namespace Splora
namespace Queue

open Foundation Auth

def submitted (parser : PubkeyParser) (caps : QueueCaps) (store : QueueStore)
    (sub : Submission) : QueueStore :=
  (submitImpl parser caps store sub).2

def runSubmits (parser : PubkeyParser) (caps : QueueCaps) (store : QueueStore)
    (subs : List Submission) : QueueStore :=
  subs.foldl (submitted parser caps) store

def Accepts (parser : PubkeyParser) (caps : QueueCaps) (store : QueueStore)
    (sub : Submission) (row : QueueRow) : Prop :=
  (submitImpl parser caps store sub).1 = .ok row

def acceptedNpubs (parser : PubkeyParser) (caps : QueueCaps) :
    QueueStore -> List Submission -> List Text
  | _, [] => []
  | store, sub :: subs =>
    let later := acceptedNpubs parser caps (submitted parser caps store sub) subs
    match (submitImpl parser caps store sub).1 with
    | .ok row => row.npub :: later
    | .error _ => later

/-!
## One submit
-/

section Step

variable {parser : PubkeyParser} {caps : QueueCaps} {store : QueueStore}
  {sub : Submission} {row : QueueRow} {npub : Text}

theorem submitted_file_of_error {e : QueueError}
    (h : (submitImpl parser caps store sub).1 = .error e) :
    (submitted parser caps store sub).file = store.file := by
  rcases submitImpl_cases parser caps store sub with ⟨_, _, hfile⟩ | ⟨_, _, _, _, _, hok, _⟩
  · exact hfile
  · rw [h] at hok
    cases hok

section

variable (h : Accepts parser caps store sub row)

include h

theorem submitted_file :
    exists pk rows', validSubmission parser sub = .ok pk ∧
      submitRows caps (loadQueue store.file) (String.utf8Len store.file) sub.npub
        sub.email = .ok (row, rows') ∧
      (submitted parser caps store sub).file = writeQueue rows' := by
  rcases submitImpl_cases parser caps store sub with
    ⟨e, herror, _⟩ | ⟨pk, row', rows', hvalid, hrows, hok, hfile⟩
  · rw [Accepts, herror] at h
    cases h
  · have heq : row' = row := Except.ok.inj (hok.symm.trans h)
    rw [heq] at hrows
    exact ⟨pk, rows', hvalid, hrows, hfile⟩

theorem accepts_row : row = { npub := sub.npub, email := sub.email } := by
  rcases submitted_file h with ⟨_, _, _, hrows, _⟩
  exact (submitRows_cases hrows).left

theorem loadQueue_submitted :
    Placed sub.npub (settle row) (loadQueue store.file)
      (loadQueue (submitted parser caps store sub).file) := by
  rcases submitted_file h with ⟨pk, rows', hvalid, hrows, hfile⟩
  rw [hfile]
  exact loadQueue_submitRows (writable_of_validSubmission hvalid) hrows

theorem settle_npub : (settle row).npub = sub.npub := by
  rw [accepts_row h]
  rfl

theorem rowsOf_submitted_of_ne (hne : npub ≠ sub.npub) :
    rowsOf npub (submitted parser caps store sub).file = rowsOf npub store.file :=
  (loadQueue_submitted h).filter_of_ne (settle_npub h) hne

theorem rowsOf_submitted_self (hone : (rowsOf sub.npub store.file).length ≤ 1) :
    rowsOf sub.npub (submitted parser caps store sub).file = [settle row] :=
  (loadQueue_submitted h).filter_self (settle_npub h) hone

end

end Step

/-!
## Sequences of submits
-/

section Run

variable {parser : PubkeyParser} {caps : QueueCaps}

theorem runSubmits_cons (parser : PubkeyParser) (caps : QueueCaps)
    (store : QueueStore) (sub : Submission) (subs : List Submission) :
    runSubmits parser caps store (sub :: subs) =
      runSubmits parser caps (submitted parser caps store sub) subs := rfl

variable {store : QueueStore} {sub : Submission}

theorem acceptedNpubs_of_ok {row : QueueRow} {subs : List Submission}
    (h : Accepts parser caps store sub row) :
    acceptedNpubs parser caps store (sub :: subs) = sub.npub ::
        acceptedNpubs parser caps (submitted parser caps store sub) subs := by
  have hnpub : row.npub = sub.npub := by
    rw [accepts_row h]
  rw [acceptedNpubs, show (submitImpl parser caps store sub).1 = .ok row from h, <- hnpub]

theorem acceptedNpubs_of_error {subs : List Submission} {e : QueueError}
    (h : (submitImpl parser caps store sub).1 = .error e) :
    acceptedNpubs parser caps store (sub :: subs) =
      acceptedNpubs parser caps (submitted parser caps store sub) subs := by
  rw [acceptedNpubs, h]

theorem length_rowsOf_submitted
    (hone : forall npub, (rowsOf npub store.file).length ≤ 1) (npub : Text) :
    (rowsOf npub (submitted parser caps store sub).file).length ≤ 1 := by
  cases hresult : (submitImpl parser caps store sub).1 with
  | error e =>
    rw [submitted_file_of_error hresult]
    exact hone npub
  | ok row =>
    by_cases hnpub : npub = sub.npub
    · rw [hnpub, rowsOf_submitted_self hresult (hone _)]
      exact le_refl 1
    · rw [rowsOf_submitted_of_ne hresult hnpub]
      exact hone npub

theorem rowsOf_runSubmits (subs : List Submission) (store : QueueStore)
    (hone : forall npub, (rowsOf npub store.file).length ≤ 1) (npub : Text) :
    (npub ∈ acceptedNpubs parser caps store subs ->
        (rowsOf npub (runSubmits parser caps store subs).file).length = 1) ∧
      (npub ∉ acceptedNpubs parser caps store subs ->
        rowsOf npub (runSubmits parser caps store subs).file = rowsOf npub store.file) := by
  induction subs generalizing store with
  | nil => exact ⟨nofun, fun _ => rfl⟩
  | cons sub subs ih =>
    rw [runSubmits_cons]
    rcases ih (submitted parser caps store sub) (length_rowsOf_submitted hone) with ⟨hmem, hnot⟩
    cases hresult : (submitImpl parser caps store sub).1 with
    | error e =>
      rw [acceptedNpubs_of_error hresult]
      rw [submitted_file_of_error hresult] at hnot
      exact ⟨hmem, hnot⟩
    | ok row =>
      rw [acceptedNpubs_of_ok hresult, List.mem_cons, not_or]
      constructor
      · intro h
        by_cases hlater : npub ∈ acceptedNpubs parser caps (submitted parser caps store sub) subs
        · exact hmem hlater
        · have hnpub : npub = sub.npub := h.resolve_right hlater
          rw [hnot hlater, hnpub, rowsOf_submitted_self hresult (hone _)]
          rfl
      · intro h
        rw [hnot h.right, rowsOf_submitted_of_ne hresult h.left]

/-- A submit leaves the rows of every other key.  After any submits to an empty queue each accepted
key has exactly one row, and no other key has any. -/
theorem submitters_isolated (parser : PubkeyParser) (caps : QueueCaps) :
    (forall store sub row npub, Accepts parser caps store sub row -> npub ≠ sub.npub ->
        rowsOf npub (submitted parser caps store sub).file = rowsOf npub store.file) ∧
      forall subs npub, (npub ∈ acceptedNpubs parser caps .opened subs ->
          (rowsOf npub (runSubmits parser caps .opened subs).file).length = 1) ∧
        (npub ∉ acceptedNpubs parser caps .opened subs ->
          rowsOf npub (runSubmits parser caps .opened subs).file = []) := by
  constructor
  · intro store sub row npub haccepts hne
    exact rowsOf_submitted_of_ne haccepts hne
  · intro subs npub
    exact rowsOf_runSubmits subs .opened (fun _ => Nat.zero_le 1) npub

end Run

namespace Sample

def firstSubmission : Submission where
  ip := none
  npub := npubA
  email := "a@x\nnpub1b".toList
  now := 0

def secondSubmission : Submission where
  ip := none
  npub := "npub1b".toList
  email := "b@x".toList
  now := 1

def afterFirst : QueueStore :=
  submitted parser {} .opened firstSubmission

theorem two_submitters_isolated :
    (Accepts parser {} afterFirst secondSubmission
        { npub := "npub1b".toList, email := "b@x".toList } ∧
      rowsOf npubA (submitted parser {} afterFirst secondSubmission).file =
        rowsOf npubA afterFirst.file) ∧
      (npubA ∈ acceptedNpubs parser {} .opened [firstSubmission, secondSubmission] ∧
        (rowsOf npubA (runSubmits parser {} .opened
          [firstSubmission, secondSubmission]).file).length = 1) := by
  have haccepts : Accepts parser {} afterFirst secondSubmission
      { npub := "npub1b".toList, email := "b@x".toList } := rfl
  have haccepted : npubA ∈ acceptedNpubs parser {} .opened
      [firstSubmission, secondSubmission] := List.mem_cons_self
  have hisolated := submitters_isolated parser {}
  exact ⟨⟨haccepts, hisolated.left _ _ _ _ haccepts (by decide)⟩, haccepted,
    (hisolated.right _ _).left haccepted⟩

end Sample

/-!
## Rows on disk
-/

def StaysLoaded (parser : PubkeyParser) (caps : QueueCaps) (row : QueueRow) :
    QueueStore -> List Submission -> Prop
  | store, [] => row ∈ loadQueue store.file
  | store, sub :: subs =>
    row ∈ loadQueue store.file ∧
      ((exists row', Accepts parser caps store sub row' ∧ row'.npub = row.npub) ∨
        StaysLoaded parser caps row (submitted parser caps store sub) subs)

/-- Every returned row is loaded as it was returned, right after the submit and from then on. -/
def RowsSurvive (parser : PubkeyParser) (caps : QueueCaps) :
    QueueStore -> List Submission -> Prop
  | _, [] => True
  | store, sub :: subs =>
    (forall row, Accepts parser caps store sub row ->
      StaysLoaded parser caps row (submitted parser caps store sub) subs) ∧
      RowsSurvive parser caps (submitted parser caps store sub) subs

def CleanEmails (parser : PubkeyParser) (caps : QueueCaps) :
    QueueStore -> List Submission -> Prop
  | _, [] => True
  | store, sub :: subs =>
    (forall row, Accepts parser caps store sub row -> Clean row.email) ∧
      CleanEmails parser caps (submitted parser caps store sub) subs

section Survival

variable {parser : PubkeyParser} {caps : QueueCaps} {store : QueueStore}
  {sub : Submission} {row : QueueRow}

theorem staysLoaded_iff (row : QueueRow) (store : QueueStore) (subs : List Submission) :
    StaysLoaded parser caps row store subs <-> row ∈ loadQueue store.file := by
  induction subs generalizing store with
  | nil => exact Iff.rfl
  | cons sub subs ih =>
    rw [StaysLoaded, ih, and_iff_left_iff_imp]
    intro hmem
    cases hresult : (submitImpl parser caps store sub).1 with
    | error e =>
      rw [submitted_file_of_error hresult]
      exact Or.inr hmem
    | ok row' =>
      by_cases hnpub : row'.npub = row.npub
      · exact Or.inl ⟨row', hresult, hnpub⟩
      · have hne : row.npub ≠ sub.npub := by
          rw [accepts_row hresult] at hnpub
          exact Ne.symm hnpub
        rw [mem_loadQueue_iff_mem_rowsOf, rowsOf_submitted_of_ne hresult hne,
          <- mem_loadQueue_iff_mem_rowsOf]
        exact Or.inr hmem

theorem mem_loadQueue_submitted (h : Accepts parser caps store sub row) :
    row ∈ loadQueue (submitted parser caps store sub).file <-> Clean row.email := by
  constructor
  · intro hmem
    exact (mem_loadQueue hmem).right
  · intro hclean
    have hmem := (loadQueue_submitted h).mem
    rw [settle_of_clean hclean] at hmem
    exact hmem

/-- The returned rows survive the disk exactly if every accepted email is a single
trimmed line. -/
theorem rows_survive_iff (parser : PubkeyParser) (caps : QueueCaps)
    (store : QueueStore) (subs : List Submission) :
    RowsSurvive parser caps store subs <->
      CleanEmails parser caps store subs := by
  induction subs generalizing store with
  | nil => exact Iff.rfl
  | cons sub subs ih =>
    rw [RowsSurvive, CleanEmails, ih]
    apply and_congr_left
    intro _
    apply forall_congr'
    intro row
    apply forall_congr'
    intro haccepts
    rw [staysLoaded_iff, mem_loadQueue_submitted haccepts]

end Survival

namespace Sample

def paddedSubmission : Submission where
  ip := none
  npub := npubA
  email := " a@x".toList
  now := 0

/-- An email with a space before it is returned with the space and loaded without. -/
theorem padded_email_not_loaded :
    Accepts parser {} .opened paddedSubmission { npub := npubA, email := " a@x".toList } ∧
      loadQueue (submitted parser {} .opened paddedSubmission).file =
        [{ npub := npubA, email := "a@x".toList }] ∧
      ¬ RowsSurvive parser {} .opened [paddedSubmission] := by
  have haccepts : Accepts parser {} .opened paddedSubmission
      { npub := npubA, email := " a@x".toList } := rfl
  have hload : loadQueue (submitted parser {} .opened paddedSubmission).file =
      [{ npub := npubA, email := "a@x".toList }] := rfl
  refine ⟨haccepts, hload, ?_⟩
  intro hsurvive
  have hloaded : _ ∈ loadQueue (submitted parser {} .opened paddedSubmission).file :=
    hsurvive.left _ haccepts
  rw [hload, List.mem_singleton] at hloaded
  cases hloaded

end Sample

end Queue
end Splora
