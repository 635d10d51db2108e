import Splora.Queue.Isolation

/-!
# The caps of the queue

The number of loaded rows never passes its cap.  The size of the file is checked only
when a row is added, so an update with a longer email can make the file as large as it
likes.
-/

namespace Splora
namespace Queue

open Foundation Auth

structure CapsHold (caps : QueueCaps) (text : Text) : Prop where
  rows : (loadQueue text).length ≤ caps.maxRows
  bytes : String.utf8Len text ≤ caps.maxBytes

def CapsAlong (parser : PubkeyParser) (caps : QueueCaps) :
    QueueStore -> List Submission -> Prop
  | store, [] => CapsHold caps store.file
  | store, sub :: subs =>
    CapsHold caps store.file ∧ CapsAlong parser caps (submitted parser caps store sub) subs

def Passes (parser : PubkeyParser) (caps : QueueCaps) (store : QueueStore)
    (sub : Submission) : Prop :=
  exists pk, validSubmission parser sub = .ok pk ∧ (checkRates caps store sub pk).1 = true

def UpdateFits (caps : QueueCaps) (store : QueueStore) (sub : Submission) : Prop :=
  forall old, (loadQueue store.file).find? (fun row => row.npub = sub.npub) = some old ->
    ((loadQueue store.file).map rowBytes).sum + String.utf8Len sub.email ≤
      caps.maxBytes + String.utf8Len old.email

def UpdatesFit (parser : PubkeyParser) (caps : QueueCaps) :
    QueueStore -> List Submission -> Prop
  | _, [] => True
  | store, sub :: subs =>
    (Passes parser caps store sub -> UpdateFits caps store sub) ∧
      UpdatesFit parser caps (submitted parser caps store sub) subs

/-!
## Sizes
-/

section Size

variable {rows : List QueueRow} {row : QueueRow} {text : Text}

theorem utf8Len_writeQueue (rows : List QueueRow) :
    String.utf8Len (writeQueue rows) = (rows.map rowBytes).sum := by
  induction rows with
  | nil => rfl
  | cons row rows ih =>
    have hcons : writeQueue (row :: rows) =
        row.npub ++ [','] ++ row.email ++ ['\n'] ++ writeQueue rows := by
      unfold writeQueue
      rw [List.map_cons, Text.unlines_cons, rowLine]
      simp only [List.append_assoc, List.cons_append, List.nil_append]
    rw [hcons, List.map_cons, List.sum_cons, <- ih]
    simp only [String.utf8Len_append]
    rfl

def Written (text : Text) : Prop :=
  exists rows, (forall r, r ∈ rows -> Writable r) ∧ text = writeQueue rows

theorem rowBytes_settle (row : QueueRow) : rowBytes (settle row) ≤ rowBytes row := by
  have hemail : String.utf8Len (Text.trim (firstLine row.email)) ≤ String.utf8Len row.email :=
    String.utf8Len_le_of_sublist ((Text.trim_sublist _).trans (List.takeWhile_sublist _))
  show String.utf8Len row.npub + 1 + String.utf8Len (Text.trim (firstLine row.email)) + 1 ≤
    String.utf8Len row.npub + 1 + String.utf8Len row.email + 1
  omega

theorem bytes_loadQueue (h : Written text) :
    ((loadQueue text).map rowBytes).sum ≤ String.utf8Len text := by
  rcases h with ⟨rows, hrows, htext⟩
  rw [htext, loadQueue_writeQueue hrows, utf8Len_writeQueue, List.map_map]
  exact List.sum_le_sum fun row _ => rowBytes_settle row

theorem bytes_replaced (before after : List QueueRow) (old row : QueueRow)
    (hnpub : row.npub = old.npub) :
    ((before ++ row :: after).map rowBytes).sum + String.utf8Len old.email =
      ((before ++ old :: after).map rowBytes).sum + String.utf8Len row.email := by
  simp only [List.map_append, List.map_cons, List.sum_append, List.sum_cons, rowBytes, hnpub]
  omega

end Size

/-!
## Runs
-/

section Run

variable {parser : PubkeyParser} {caps : QueueCaps} {store : QueueStore}
  {sub : Submission} {row : QueueRow}

theorem submitted_writable (h : Accepts parser caps store sub row) :
    exists rows', submitRows caps (loadQueue store.file)
        (String.utf8Len store.file) sub.npub sub.email = .ok (row, rows') ∧
      (forall r, r ∈ rows' -> Writable r) ∧
      (submitted parser caps store sub).file = writeQueue rows' := by
  rcases submitted_file h with ⟨pk, rows', hvalid, hrows, hfile⟩
  exact ⟨rows', hrows, writable_submitRows (writable_of_validSubmission hvalid) hrows, hfile⟩

theorem submitImpl_of_passes (h : Passes parser caps store sub) :
    exists store', store'.file = store.file ∧
      submitImpl parser caps store sub = submitDisk caps store' sub.npub sub.email := by
  rcases h with ⟨pk, hvalid, hrates⟩
  refine ⟨(checkRates caps store sub pk).2, checkRates_file caps store sub pk, ?_⟩
  rw [submitImpl_of_valid hvalid, show checkRates caps store sub pk =
    (true, (checkRates caps store sub pk).2) from Prod.ext hrates rfl]

theorem passes_of_accepts (h : Accepts parser caps store sub row) :
    Passes parser caps store sub := by
  cases hvalid : validSubmission parser sub with
  | error e =>
    rw [Accepts, submitImpl, hvalid] at h
    cases h
  | ok pk =>
    refine ⟨pk, hvalid, ?_⟩
    rw [Accepts, submitImpl_of_valid hvalid] at h
    rcases hrates : checkRates caps store sub pk with ⟨passed, store'⟩
    cases passed with
    | true => rfl
    | false =>
      rw [hrates] at h
      cases h

theorem written_submitted (parser : PubkeyParser) (caps : QueueCaps)
    (sub : Submission) (h : Written store.file) :
    Written (submitted parser caps store sub).file := by
  cases hresult : (submitImpl parser caps store sub).1 with
  | error e =>
    rw [submitted_file_of_error hresult]
    exact h
  | ok row =>
    rcases submitted_writable hresult with ⟨rows', _, hwritable, hfile⟩
    exact ⟨rows', hwritable, hfile⟩

theorem capsHold_writeQueue {rows : List QueueRow} (h : forall r, r ∈ rows -> Writable r) :
    CapsHold caps (writeQueue rows) <->
      rows.length ≤ caps.maxRows ∧ (rows.map rowBytes).sum ≤ caps.maxBytes := by
  have hlength : (loadQueue (writeQueue rows)).length = rows.length := by
    rw [loadQueue_writeQueue h, List.length_map]
  rw [<- hlength, <- utf8Len_writeQueue]
  exact ⟨fun hcaps => ⟨hcaps.rows, hcaps.bytes⟩, fun hcaps => ⟨hcaps.left, hcaps.right⟩⟩

theorem find?_of_split {rows before after : List QueueRow} {old : QueueRow} {npub : Text}
    (hrows : rows = before ++ old :: after) (hold : old.npub = npub)
    (hbefore : forall r, r ∈ before -> r.npub ≠ npub) :
    rows.find? (fun r => r.npub = npub) = some old := by
  rw [hrows, List.find?_eq_some_iff_append]
  refine ⟨by simpa using hold, before, after, rfl, ?_⟩
  intro r hr
  simpa using hbefore r hr

theorem capsHold_submitted (hwritten : Written store.file)
    (hcaps : CapsHold caps store.file) (h : Accepts parser caps store sub row) :
    CapsHold caps (submitted parser caps store sub).file <->
      UpdateFits caps store sub := by
  rcases submitted_writable h with ⟨rows', hrows, hwritable, hfile⟩
  rw [hfile, capsHold_writeQueue hwritable, UpdateFits]
  rcases submitRows_cases hrows with ⟨hrow, hplace⟩
  rcases hplace with ⟨before, old, after, hloaded, hold, hbefore, hrows'⟩ |
    ⟨hnone, hrows', hlength, hbytes⟩
  · have hlength : rows'.length = (loadQueue store.file).length := by
      rw [hloaded, hrows', List.length_append, List.length_append, List.length_cons,
        List.length_cons]
    have hsum := bytes_replaced before after old row (by rw [hrow, hold])
    rw [<- hrows', <- hloaded, show row.email = sub.email by rw [hrow]] at hsum
    rw [hlength, and_iff_right hcaps.rows, find?_of_split hloaded hold hbefore]
    constructor
    · intro hle old' hold'
      rw [<- Option.some.inj hold', <- hsum]
      exact Nat.add_le_add_right hle _
    · intro hfits
      have hle := hfits old rfl
      rw [<- hsum] at hle
      exact Nat.le_of_add_le_add_right hle
  · apply iff_of_true
    · have hloaded := bytes_loadQueue hwritten
      rw [hrows', List.length_append, List.length_singleton, List.map_append,
        List.sum_append, List.map_singleton, List.sum_singleton]
      exact ⟨hlength, (Nat.add_le_add_right hloaded _).trans hbytes⟩
    · intro old hold
      have hnpub := List.find?_some hold
      exact absurd (by simpa using hnpub) (hnone old (List.mem_of_find?_eq_some hold))

theorem updateFits_of_error {e : QueueError} (hpasses : Passes parser caps store sub)
    (herror : (submitImpl parser caps store sub).1 = .error e) : UpdateFits caps store sub := by
  intro old hold
  rcases submitImpl_of_passes hpasses with ⟨store', hfile, hdisk⟩
  rw [hdisk, submitDisk, hfile, submitRows] at herror
  cases hfound : updateEmail sub.npub sub.email (loadQueue store.file) with
  | some found =>
    rw [hfound] at herror
    cases herror
  | none =>
    have hnpub := List.find?_some hold
    exact absurd (by simpa using hnpub)
      (updateEmail_eq_none.mp hfound old (List.mem_of_find?_eq_some hold))

theorem capsAlong_head {subs : List Submission}
    (h : CapsAlong parser caps store subs) : CapsHold caps store.file := by
  cases subs with
  | nil => exact h
  | cons sub subs => exact h.left

theorem capsAlong_of_written (subs : List Submission) (store : QueueStore)
    (hwritten : Written store.file) (hcaps : CapsHold caps store.file) :
    CapsAlong parser caps store subs <-> UpdatesFit parser caps store subs := by
  induction subs generalizing store with
  | nil => exact iff_of_true hcaps trivial
  | cons sub subs ih =>
    rw [CapsAlong, UpdatesFit, and_iff_right hcaps]
    have hwritten' := written_submitted parser caps sub hwritten
    cases hresult : (submitImpl parser caps store sub).1 with
    | error e =>
      have hcaps' : CapsHold caps (submitted parser caps store sub).file := by
        rw [submitted_file_of_error hresult]
        exact hcaps
      rw [ih _ hwritten' hcaps', and_iff_right]
      exact fun hpasses => updateFits_of_error hpasses hresult
    | ok row =>
      have hstep := capsHold_submitted hwritten hcaps hresult
      constructor
      · intro halong
        have hcaps' := capsAlong_head halong
        exact ⟨fun _ => hstep.mp hcaps', (ih _ hwritten' hcaps').mp halong⟩
      · intro hfit
        exact (ih _ hwritten' (hstep.mpr (hfit.left (passes_of_accepts hresult)))).mpr hfit.right

/-- In a run from the empty queue both caps hold exactly if every update that passes the checks
fits. -/
theorem caps_along_iff (parser : PubkeyParser) (caps : QueueCaps) (subs : List Submission) :
    CapsAlong parser caps .opened subs <-> UpdatesFit parser caps .opened subs :=
  capsAlong_of_written subs .opened ⟨[], nofun, rfl⟩ ⟨Nat.zero_le _, Nat.zero_le _⟩

end Run

namespace Sample

def smallCaps : QueueCaps where
  maxBytes := 10

def shortSubmission : Submission where
  ip := none
  npub := npubA
  email := []
  now := 0

def longSubmission : Submission where
  ip := none
  npub := npubA
  email := "long@x".toList
  now := 1

/-- The first submit fits, and the update of its email takes the file past the cap. -/
theorem update_exceeds_bytes :
    Accepts parser smallCaps .opened shortSubmission { npub := npubA, email := [] } ∧
      Accepts parser smallCaps (submitted parser smallCaps .opened shortSubmission)
        longSubmission { npub := npubA, email := "long@x".toList } ∧
      String.utf8Len (runSubmits parser smallCaps .opened
        [shortSubmission, longSubmission]).file = 14 ∧
      ¬ CapsAlong parser smallCaps .opened [shortSubmission, longSubmission] := by
  have hbytes : String.utf8Len (runSubmits parser smallCaps .opened
      [shortSubmission, longSubmission]).file = 14 := rfl
  refine ⟨rfl, rfl, hbytes, ?_⟩
  intro halong
  have hcaps : CapsHold smallCaps (runSubmits parser smallCaps .opened
      [shortSubmission, longSubmission]).file := halong.right.right
  have hle := hcaps.bytes
  rw [hbytes] at hle
  exact absurd hle (by decide)

end Sample

end Queue
end Splora
