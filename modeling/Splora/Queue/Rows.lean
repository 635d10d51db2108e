import Splora.Queue.Edits

/-!
# The rows of the queue file

One `npub,email` row a line, written without any escape and read back trimmed.  A line that is
not exactly two fields is skipped.
-/

namespace Splora
namespace Queue

open Foundation Auth

structure QueueRow where
  npub : Text
  email : Text
deriving DecidableEq, Repr

def parseQueueLine (line : Text) : Option QueueRow :=
  match List.splitOn ',' line with
  | [npub, email] =>
    if Text.trim npub = [] then
      none
    else
      some { npub := Text.trim npub, email := Text.trim email }
  | _ => none

def readRow (raw : Text) : Option QueueRow :=
  let line := Text.trim raw
  if line = [] then none else parseQueueLine line

def loadQueue (text : Text) : List QueueRow :=
  (Text.lines text).filterMap readRow

def rowsOf (npub text : Text) : List QueueRow :=
  (loadQueue text).filter fun row => row.npub = npub

def rowLine (row : QueueRow) : Text :=
  row.npub ++ ',' :: row.email

def writeQueue (rows : List QueueRow) : Text :=
  Text.unlines (rows.map rowLine)

def retainOthers (npub : Text) (rows : List QueueRow) : List QueueRow :=
  rows.filter fun row => row.npub ≠ npub

/-!
## One line
-/

section Line

variable {raw npub email text : Text} {row : QueueRow} {rows : List QueueRow}

theorem parseQueueLine_eq_some :
    parseQueueLine raw = some row <->
      exists npub email, raw = npub ++ ',' :: email ∧ ',' ∉ npub ∧ ',' ∉ email ∧
        Text.trim npub ≠ [] ∧
        row = { npub := Text.trim npub, email := Text.trim email } := by
  constructor
  · intro h
    unfold parseQueueLine at h
    split at h
    · rename_i npub email hsplit
      rcases Text.splitOn_eq_pair.mp hsplit with ⟨hraw, hnpub, hemail⟩
      split at h
      · cases h
      · rename_i hne
        exact ⟨npub, email, hraw, hnpub, hemail, hne, (Option.some.inj h).symm⟩
    · cases h
  · intro h
    rcases h with ⟨npub, email, hraw, hnpub, hemail, hne, hrow⟩
    unfold parseQueueLine
    rw [Text.splitOn_eq_pair.mpr ⟨hraw, hnpub, hemail⟩, hrow]
    exact if_neg hne

theorem readRow_eq_some : readRow raw = some row <-> parseQueueLine (Text.trim raw) = some row := by
  show (if Text.trim raw = [] then none else _) = some row <-> _
  by_cases hnil : Text.trim raw = []
  · rw [if_pos hnil, hnil]
    rfl
  · rw [if_neg hnil]

theorem readRow_stripCr (raw : Text) : readRow (Text.stripCr raw) = readRow raw := by
  unfold readRow
  rw [Text.trim_stripCr]

theorem readRow_eq_none (h : ',' ∉ raw) : readRow raw = none := by
  rw [Option.eq_none_iff_forall_ne_some]
  intro row hrow
  rcases parseQueueLine_eq_some.mp (readRow_eq_some.mp hrow) with ⟨npub, email, htrim, _⟩
  apply h
  apply Text.mem_of_mem_trim
  rw [htrim]
  exact List.mem_append_right _ List.mem_cons_self

theorem readRow_rowLine (hnpub : ',' ∉ npub) (htrim : Text.trim npub = npub)
    (hne : npub ≠ []) (hemail : ',' ∉ email) :
    readRow (rowLine { npub, email }) = some { npub, email := Text.trim email } := by
  rw [readRow_eq_some]
  show parseQueueLine (Text.trim (npub ++ ',' :: email)) = _
  rw [Text.trim_append_cons htrim hne (by decide), parseQueueLine_eq_some]
  refine ⟨npub, _, rfl, hnpub, ?_, ?_, ?_⟩
  · intro hcomma
    exact hemail ((List.rdropWhile_prefix _ _).subset hcomma)
  · rw [htrim]
    exact hne
  · rw [htrim, Text.trim_rdropWhile]

end Line

/-!
## Rows as they are loaded
-/

structure NpubField (npub : Text) : Prop where
  ne_nil : npub ≠ []
  trimmed : Text.trim npub = npub
  no_comma : ',' ∉ npub
  one_line : '\n' ∉ npub

theorem npubField_of_validNpub {parser : PubkeyParser} {npub : Text} {pk : Pubkey}
    (h : validNpub parser npub = .ok pk) : NpubField npub where
  ne_nil := npub_ne_nil h
  trimmed := trim_npub h
  no_comma hcomma := (npub_clean h hcomma).left rfl
  one_line := not_lineFeed_mem_npub h

structure Writable (row : QueueRow) : Prop where
  npub : NpubField row.npub
  email : ',' ∉ row.email

def Clean (email : Text) : Prop :=
  '\n' ∉ email ∧ Text.trim email = email

def firstLine (t : Text) : Text :=
  t.takeWhile fun c => c ≠ '\n'

def settle (row : QueueRow) : QueueRow :=
  { row with email := Text.trim (firstLine row.email) }

section Loaded

variable {text npub : Text} {row : QueueRow} {rows : List QueueRow}

theorem mem_loadQueue (h : row ∈ loadQueue text) : Writable row ∧ Clean row.email := by
  rcases List.mem_filterMap.mp h with ⟨raw, hraw, hrow⟩
  rcases parseQueueLine_eq_some.mp (readRow_eq_some.mp hrow) with
    ⟨npub, email, htrim, hnpub, hemail, hne, hrow⟩
  have hline : forall c, c ∈ npub ++ ',' :: email -> c ≠ '\n' := by
    intro c hc
    rw [<- htrim] at hc
    exact (Text.mem_of_mem_lines hraw (Text.mem_of_mem_trim hc)).right
  rw [hrow]
  refine ⟨⟨⟨hne, Text.trim_trim _, ?_, ?_⟩, ?_⟩, ?_, Text.trim_trim _⟩
  · intro hc
    exact hnpub (Text.mem_of_mem_trim hc)
  · intro hc
    exact hline _ (List.mem_append_left _ (Text.mem_of_mem_trim hc)) rfl
  · intro hc
    exact hemail (Text.mem_of_mem_trim hc)
  · intro hc
    exact hline _ (List.mem_append_right _ (List.mem_cons_of_mem _ (Text.mem_of_mem_trim hc))) rfl

theorem firstLine_of_not_mem {t : Text} (h : '\n' ∉ t) : firstLine t = t := by
  apply List.takeWhile_eq_self_iff.mpr
  intro c hc
  rw [decide_eq_true_eq]
  intro heq
  rw [heq] at hc
  exact h hc

theorem settle_of_clean (h : Clean row.email) : settle row = row := by
  unfold settle
  rw [firstLine_of_not_mem h.left, h.right]

theorem firstLine_append {first rest : Text} (h : '\n' ∉ first) :
    firstLine (first ++ '\n' :: rest) = first := by
  unfold firstLine
  rw [List.takeWhile_append_of_pos]
  · exact List.append_nil first
  · intro c hc
    rw [decide_eq_true_eq]
    intro heq
    rw [heq] at hc
    exact h hc

theorem loadQueue_eq_nil (h : ',' ∉ text) : loadQueue text = [] := by
  rw [loadQueue, List.filterMap_eq_nil_iff]
  intro raw hraw
  apply readRow_eq_none
  intro hcomma
  exact h (Text.mem_of_mem_lines hraw hcomma).left

theorem loadQueue_cons {email rest : Text} (hnpub : NpubField npub)
    (hcomma : ',' ∉ email) (hline : '\n' ∉ email) :
    loadQueue (rowLine { npub, email } ++ '\n' :: rest) =
      { npub, email := Text.trim email } :: loadQueue rest := by
  have hraw : '\n' ∉ rowLine { npub, email } := by
    intro hmem
    rcases List.mem_append.mp hmem with hmem | hmem
    · exact hnpub.one_line hmem
    · exact hline (List.mem_of_ne_of_mem (by decide) hmem)
  rw [loadQueue, Text.lines_cons hraw]
  refine List.filterMap_cons_some ?_
  rw [readRow_stripCr]
  exact readRow_rowLine hnpub.no_comma hnpub.trimmed hnpub.ne_nil hcomma

theorem loadQueue_rowLine (h : Writable row) :
    loadQueue (rowLine row ++ ['\n']) = [settle row] := by
  by_cases hline : '\n' ∈ row.email
  · rcases List.eq_append_cons_of_mem hline with ⟨first, rest, hemail, hfirst⟩
    have hcomma : ',' ∉ first ∧ ',' ∉ rest := by
      have hcomma := h.email
      rw [hemail, List.mem_append, not_or, List.mem_cons, not_or] at hcomma
      exact ⟨hcomma.left, hcomma.right.right⟩
    have hnil : loadQueue (rest ++ ['\n']) = [] := by
      apply loadQueue_eq_nil
      intro hmem
      rcases List.mem_append.mp hmem with hmem | hmem
      · exact hcomma.right hmem
      · exact absurd (List.mem_singleton.mp hmem) (by decide)
    have hrow : rowLine row ++ ['\n'] =
        rowLine { npub := row.npub, email := first } ++ '\n' :: (rest ++ ['\n']) := by
      unfold rowLine
      rw [hemail]
      simp only [List.append_assoc, List.cons_append]
    rw [hrow, loadQueue_cons h.npub hcomma.left hfirst, hnil, settle, hemail,
      firstLine_append hfirst]
  · rw [settle, firstLine_of_not_mem hline]
    exact loadQueue_cons h.npub h.email hline

theorem loadQueue_writeQueue (h : forall row, row ∈ rows -> Writable row) :
    loadQueue (writeQueue rows) = rows.map settle := by
  induction rows with
  | nil => rfl
  | cons row rows ih =>
    rw [List.forall_mem_cons] at h
    have hcons : writeQueue (row :: rows) = rowLine row ++ '\n' :: writeQueue rows := by
      unfold writeQueue
      rw [List.map_cons, Text.unlines_cons]
    rw [hcons, loadQueue, Text.lines_append_lineFeed, List.filterMap_append]
    show loadQueue (rowLine row ++ ['\n']) ++ loadQueue (writeQueue rows) = _
    rw [loadQueue_rowLine h.left, ih h.right]
    rfl

theorem map_settle_eq_self (h : forall r, r ∈ rows -> settle r = r) : rows.map settle = rows := by
  conv_rhs => rw [<- List.map_id rows]
  rw [List.map_inj_left]
  exact h

theorem loadQueue_writeQueue_loaded (h : forall r, r ∈ rows -> r ∈ loadQueue text) :
    loadQueue (writeQueue rows) = rows := by
  rw [loadQueue_writeQueue fun r hr => (mem_loadQueue (h r hr)).left]
  exact map_settle_eq_self fun r hr => settle_of_clean (mem_loadQueue (h r hr)).right

theorem loadQueue_retainOthers (npub text : Text) :
    loadQueue (writeQueue (retainOthers npub (loadQueue text))) =
      retainOthers npub (loadQueue text) :=
  loadQueue_writeQueue_loaded fun _ hr => (List.mem_filter.mp hr).left

theorem mem_loadQueue_iff_mem_rowsOf : row ∈ loadQueue text <-> row ∈ rowsOf row.npub text := by
  rw [rowsOf, List.mem_filter, decide_eq_true_eq, and_iff_left rfl]

theorem rowsOf_retainOthers (npub text : Text) :
    rowsOf npub (writeQueue (retainOthers npub (loadQueue text))) = [] := by
  rw [rowsOf, loadQueue_retainOthers, List.filter_eq_nil_iff]
  intro r hr
  rw [decide_eq_true_eq]
  exact of_decide_eq_true (List.mem_filter.mp hr).right

theorem rowsOf_retainOthers_of_ne {other : Text} (h : other ≠ npub) :
    rowsOf other (writeQueue (retainOthers npub (loadQueue text))) =
      rowsOf other text := by
  rw [rowsOf, loadQueue_retainOthers, retainOthers, List.filter_filter, rowsOf]
  apply List.filter_congr
  intro r _
  rw [Bool.and_eq_left_iff_imp, decide_eq_true_eq, decide_eq_true_eq]
  intro hr
  rw [hr]
  exact h

end Loaded

end Queue
end Splora
