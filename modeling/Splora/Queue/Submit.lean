import Splora.Queue.Rows

/-!
# Submitting to the queue

A submit checks its key and email, passes the two rate limits, and then rewrites the
queue file: it replaces the email of its key, or adds a row if the caps allow it.
-/

namespace Splora
namespace Queue

open Foundation Auth

structure QueueCaps where
  maxRows : Nat := 10000
  maxBytes : Nat := 2 * 1024 * 1024
  perIp : UInt32 := 10
  perNpub : UInt32 := 5
  windowSecs : Nat := 60

inductive IpAddr where
  | v4 (address : BitVec 32)
  | v6 (address : BitVec 128)
deriving DecidableEq, Repr

structure QueueStore where
  ipHits : IpAddr -> List Nat
  npubHits : Pubkey -> List Nat
  file : Text

/-- The arguments of a submit; `ip` is unknown on a unix socket. -/
structure Submission where
  ip : Option IpAddr
  npub : Text
  email : Text
  now : Nat

def QueueStore.opened : QueueStore where
  ipHits _ := []
  npubHits _ := []
  file := []

/-- The number of hits is cut to 32 bits before the comparison. -/
def rateOk (hits : List Nat) (now window : Nat) (max : UInt32) :
    Bool × List Nat :=
  let kept := hits.filter fun t => now - t < window
  if kept.length % 2 ^ 32 ≥ max.toNat then (false, kept) else (true, kept ++ [now])

def checkIp (caps : QueueCaps) (store : QueueStore) (ip : IpAddr) (now : Nat) :
    Bool × QueueStore :=
  let (ok, hits) := rateOk (store.ipHits ip) now caps.windowSecs caps.perIp
  (ok, { store with ipHits := Function.update store.ipHits ip hits })

def checkNpub (caps : QueueCaps) (store : QueueStore) (pk : Pubkey) (now : Nat) :
    Bool × QueueStore :=
  let (ok, hits) := rateOk (store.npubHits pk) now caps.windowSecs caps.perNpub
  (ok, { store with npubHits := Function.update store.npubHits pk hits })

def updateEmail (npub email : Text) : List QueueRow -> Option (QueueRow × List QueueRow)
  | [] => none
  | row :: rows =>
    if row.npub = npub then
      let existing := { row with email := email }
      some (existing, existing :: rows)
    else
      (updateEmail npub email rows).map fun found => (found.1, row :: found.2)

def submitRows (caps : QueueCaps) (rows : List QueueRow) (currentBytes : Nat)
    (npub email : Text) : Except QueueError (QueueRow × List QueueRow) :=
  match updateEmail npub email rows with
  | some found => .ok found
  | none => do
      let lineBytes := String.utf8Len npub + 1 + String.utf8Len email + 1
      ensure (¬ (rows.length ≥ caps.maxRows ∨
        currentBytes + lineBytes > caps.maxBytes)) .capExceeded
      let row := { npub, email }
      pure (row, rows ++ [row])

def submitDisk (caps : QueueCaps) (store : QueueStore) (npub email : Text) :
    Except QueueError QueueRow × QueueStore :=
  match submitRows caps (loadQueue store.file) (String.utf8Len store.file) npub email with
  | .error e => (.error e, store)
  | .ok (row, rows) => (.ok row, { store with file := writeQueue rows })

def validSubmission (parser : PubkeyParser) (sub : Submission) :
    Except QueueError Pubkey := do
  let pk <- validNpub parser sub.npub
  ensure (',' ∉ sub.email) .invalidEmail
  pure pk

def checkPeer (caps : QueueCaps) (store : QueueStore) (now : Nat) :
    Option IpAddr -> Bool × QueueStore
  | none => (true, store)
  | some ip => checkIp caps store ip now

def checkRates (caps : QueueCaps) (store : QueueStore) (sub : Submission)
    (pk : Pubkey) : Bool × QueueStore :=
  match checkPeer caps store sub.now sub.ip with
  | (false, store) => (false, store)
  | (true, store) => checkNpub caps store pk sub.now

def submitImpl (parser : PubkeyParser) (caps : QueueCaps) (store : QueueStore)
    (sub : Submission) : Except QueueError QueueRow × QueueStore :=
  match validSubmission parser sub with
  | .error e => (.error e, store)
  | .ok pk =>
    match checkRates caps store sub pk with
    | (false, store) => (.error .rateLimited, store)
    | (true, store) => submitDisk caps store sub.npub sub.email

/-!
## What a submit does to the file
-/

section Step

variable {parser : PubkeyParser} {caps : QueueCaps} {store : QueueStore}
  {sub : Submission} {row : QueueRow} {rows rows' : List QueueRow} {npub email : Text}
  {pk : Pubkey} {currentBytes : Nat}

theorem validSubmission_eq_ok :
    validSubmission parser sub = .ok pk <->
      validNpub parser sub.npub = .ok pk ∧ ',' ∉ sub.email := by
  unfold validSubmission
  rw [bind_eq_ok]
  constructor
  · intro h
    rcases h with ⟨pk', hpk, hrest⟩
    rw [bind_eq_ok] at hrest
    rcases hrest with ⟨_, hemail, hpure⟩
    rw [pure_eq_ok] at hpure
    rw [<- hpure]
    exact ⟨hpk, ensure_eq_ok.mp hemail⟩
  · intro h
    refine ⟨pk, h.left, ?_⟩
    rw [ensure_of _ h.right]
    rfl

theorem checkPeer_file (caps : QueueCaps) (store : QueueStore) (now : Nat)
    (ip : Option IpAddr) : (checkPeer caps store now ip).2.file = store.file := by
  cases ip with
  | none => rfl
  | some ip => rfl

theorem checkRates_file (caps : QueueCaps) (store : QueueStore) (sub : Submission)
    (pk : Pubkey) : (checkRates caps store sub pk).2.file = store.file := by
  rw [<- checkPeer_file caps store sub.now sub.ip, checkRates]
  split
  · rename_i hpeer
    rw [hpeer]
  · rename_i hpeer
    rw [hpeer]
    rfl

theorem submitDisk_cases (caps : QueueCaps) (store : QueueStore) (npub email : Text) :
    (exists e, submitDisk caps store npub email = (.error e, store)) ∨
      exists row rows', submitRows caps (loadQueue store.file)
          (String.utf8Len store.file) npub email = .ok (row, rows') ∧
        submitDisk caps store npub email = (.ok row, { store with file := writeQueue rows' }) := by
  unfold submitDisk
  cases hrows : submitRows caps (loadQueue store.file) (String.utf8Len store.file) npub email with
  | error e => exact Or.inl ⟨e, rfl⟩
  | ok found => exact Or.inr ⟨found.1, found.2, rfl, rfl⟩

theorem submitImpl_of_valid (hvalid : validSubmission parser sub = .ok pk) :
    submitImpl parser caps store sub = match checkRates caps store sub pk with
      | (false, store) => (.error .rateLimited, store)
      | (true, store) => submitDisk caps store sub.npub sub.email := by
  rw [submitImpl, hvalid]

theorem submitImpl_cases (parser : PubkeyParser) (caps : QueueCaps)
    (store : QueueStore) (sub : Submission) :
    (exists e, (submitImpl parser caps store sub).1 = .error e ∧
        (submitImpl parser caps store sub).2.file = store.file) ∨
      exists pk row rows', validSubmission parser sub = .ok pk ∧
        submitRows caps (loadQueue store.file) (String.utf8Len store.file) sub.npub
          sub.email = .ok (row, rows') ∧
        (submitImpl parser caps store sub).1 = .ok row ∧
        (submitImpl parser caps store sub).2.file = writeQueue rows' := by
  cases hvalid : validSubmission parser sub with
  | error e =>
    rw [submitImpl, hvalid]
    exact Or.inl ⟨e, rfl, rfl⟩
  | ok pk =>
    have hfile := checkRates_file caps store sub pk
    rcases hrates : checkRates caps store sub pk with ⟨ok, store'⟩
    rw [hrates] at hfile
    cases ok with
    | false =>
      rw [submitImpl_of_valid hvalid, hrates]
      exact Or.inl ⟨.rateLimited, rfl, hfile⟩
    | true =>
      rw [submitImpl_of_valid hvalid, hrates, <- hfile]
      dsimp only
      rcases submitDisk_cases caps store' sub.npub sub.email with
        ⟨e, hdisk⟩ | ⟨row, rows', hrows, hdisk⟩
      · rw [hdisk]
        exact Or.inl ⟨e, rfl, rfl⟩
      · rw [hdisk]
        exact Or.inr ⟨pk, row, rows', rfl, hrows, rfl, rfl⟩

/-!
## What the rows become
-/

theorem updateEmail_eq_none :
    updateEmail npub email rows = none <-> forall r, r ∈ rows -> r.npub ≠ npub := by
  induction rows with
  | nil => simp [updateEmail]
  | cons r rows ih =>
    rw [List.forall_mem_cons, <- ih, updateEmail]
    by_cases hr : r.npub = npub
    · simp [hr]
    · simp [hr]

theorem updateEmail_eq_some (h : updateEmail npub email rows = some (row, rows')) :
    row = { npub, email } ∧ exists before r after, rows = before ++ r :: after ∧
      r.npub = npub ∧ (forall r, r ∈ before -> r.npub ≠ npub) ∧
      rows' = before ++ row :: after := by
  induction rows generalizing rows' with
  | nil => cases h
  | cons r rows ih =>
    rw [updateEmail] at h
    by_cases hr : r.npub = npub
    · rw [if_pos hr] at h
      rcases Prod.mk.inj (Option.some.inj h) with ⟨hrow, hrows'⟩
      have hrow' : row = { npub, email } := by
        rw [<- hrow, hr]
      refine ⟨hrow', [], r, rows, rfl, hr, by simp, ?_⟩
      rw [<- hrows', <- hrow]
      rfl
    · rw [if_neg hr] at h
      rcases Option.map_eq_some_iff.mp h with ⟨⟨row', rest⟩, hfound, heq⟩
      rcases Prod.mk.inj heq with ⟨hrow, hrows'⟩
      have hrow' : row' = row := hrow
      rw [hrow'] at hfound
      rcases ih hfound with ⟨hout, before, r', after, hrows, hr', hbefore, hrest⟩
      refine ⟨hout, r :: before, r', after, ?_, hr', ?_, ?_⟩
      · rw [hrows]
        rfl
      · exact List.forall_mem_cons.mpr ⟨hr, hbefore⟩
      · rw [<- hrows', hrest]
        rfl

def rowBytes (row : QueueRow) : Nat :=
  String.utf8Len row.npub + 1 + String.utf8Len row.email + 1

theorem submitRows_cases (h : submitRows caps rows currentBytes npub email = .ok (row, rows')) :
    row = { npub, email } ∧ ((exists before r after, rows = before ++ r :: after ∧ r.npub = npub ∧
          (forall r, r ∈ before -> r.npub ≠ npub) ∧
          rows' = before ++ row :: after) ∨
        ((forall r, r ∈ rows -> r.npub ≠ npub) ∧ rows' = rows ++ [row] ∧
          rows.length < caps.maxRows ∧
          currentBytes + rowBytes row ≤ caps.maxBytes)) := by
  unfold submitRows at h
  cases hfound : updateEmail npub email rows with
  | some found =>
    rw [hfound] at h
    have heq : found = (row, rows') := Except.ok.inj h
    rw [heq] at hfound
    rcases updateEmail_eq_some hfound with ⟨hrow, hplace⟩
    exact ⟨hrow, Or.inl hplace⟩
  | none =>
    rw [hfound] at h
    rcases bind_eq_ok.mp h with ⟨_, hcaps, hpure⟩
    rw [pure_eq_ok] at hpure
    rcases Prod.mk.inj hpure with ⟨hrow, hrows'⟩
    rw [ensure_eq_ok, not_or, not_le, not_lt] at hcaps
    rw [<- hrow]
    exact ⟨rfl, Or.inr ⟨updateEmail_eq_none.mp hfound, hrows'.symm, hcaps⟩⟩

theorem writable_of_validSubmission (h : validSubmission parser sub = .ok pk) :
    Writable { npub := sub.npub, email := sub.email } := by
  rcases validSubmission_eq_ok.mp h with ⟨hnpub, hemail⟩
  exact ⟨npubField_of_validNpub hnpub, hemail⟩

end Step

/-!
## What is loaded afterwards
-/

section Placed

variable {caps : QueueCaps} {row : QueueRow} {rows rows' : List QueueRow}
  {npub email text : Text} {currentBytes : Nat}

def Placed (npub : Text) (row : QueueRow) (rows rows' : List QueueRow) : Prop :=
  exists before old after, rows = before ++ old ++ after ∧
    rows' = before ++ row :: after ∧ (forall r, r ∈ before -> r.npub ≠ npub) ∧
    ((exists r, old = [r] ∧ r.npub = npub) ∨ old = [] ∧ after = [])

theorem Placed.filter_of_ne (h : Placed npub row rows rows') (hrow : row.npub = npub)
    {other : Text} (hne : other ≠ npub) :
    (rows'.filter fun r => r.npub = other) = rows.filter fun r => r.npub = other := by
  rcases h with ⟨before, old, after, hrows, hrows', _, hold⟩
  have hnot : decide (row.npub = other) = false := by
    rw [hrow]
    exact decide_eq_false (Ne.symm hne)
  have hfilter : old.filter (fun r => r.npub = other) = [] := by
    rcases hold with ⟨r, hold, hr⟩ | ⟨hold, _⟩
    · have hother : decide (r.npub = other) = false := by
        rw [hr]
        exact decide_eq_false (Ne.symm hne)
      rw [hold, List.filter_cons, hother]
      rfl
    · rw [hold]
      rfl
  rw [hrows, hrows', List.filter_append, List.filter_append, List.filter_append,
    List.filter_cons, hnot, hfilter, List.append_nil]
  rfl

theorem Placed.filter_self (h : Placed npub row rows rows') (hrow : row.npub = npub)
    (hone : (rows.filter fun r => r.npub = npub).length ≤ 1) :
    (rows'.filter fun r => r.npub = npub) = [row] := by
  rcases h with ⟨before, old, after, hrows, hrows', hbefore, hold⟩
  have hbefore' : before.filter (fun r => r.npub = npub) = [] := by
    rw [List.filter_eq_nil_iff]
    intro r hr
    rw [decide_eq_true_eq]
    exact hbefore r hr
  have hafter : after.filter (fun r => r.npub = npub) = [] := by
    rcases hold with ⟨r, hold, hr⟩ | ⟨_, hafter⟩
    · rw [hrows, hold, List.filter_append, List.filter_append, hbefore',
        List.filter_cons, decide_eq_true hr, List.length_append] at hone
      apply List.eq_nil_of_length_eq_zero
      exact Nat.le_zero.mp (Nat.le_of_add_le_add_left hone)
    · rw [hafter]
      rfl
  rw [hrows', List.filter_append, List.filter_cons, decide_eq_true hrow, hbefore', hafter]
  rfl

theorem Placed.mem (h : Placed npub row rows rows') : row ∈ rows' := by
  rcases h with ⟨before, old, after, _, hrows', _⟩
  rw [hrows']
  exact List.mem_append_right _ List.mem_cons_self

theorem Placed.forall_mem {P : QueueRow -> Prop} (h : Placed npub row rows rows')
    (hrow : P row) (hall : forall r, r ∈ rows -> P r) : forall r, r ∈ rows' -> P r := by
  rcases h with ⟨before, old, after, hrows, hrows', _⟩
  rw [hrows, List.forall_mem_append, List.forall_mem_append] at hall
  rw [hrows', List.forall_mem_append, List.forall_mem_cons]
  exact ⟨hall.left.left, hrow, hall.right⟩

theorem Placed.map_settle (h : Placed npub row rows rows')
    (hall : forall r, r ∈ rows -> settle r = r) :
    Placed npub (settle row) rows (rows'.map settle) := by
  rcases h with ⟨before, old, after, hrows, hrows', hrest⟩
  refine ⟨before, old, after, hrows, ?_, hrest⟩
  rw [hrows, List.forall_mem_append, List.forall_mem_append] at hall
  rw [hrows', List.map_append, List.map_cons, map_settle_eq_self hall.left.left,
    map_settle_eq_self hall.right]

theorem placed_of_submitRows (h : submitRows caps rows currentBytes npub email = .ok (row, rows')) :
    Placed npub row rows rows' := by
  rcases submitRows_cases h with
    ⟨_, ⟨before, r, after, hrows, hr, hbefore, hrows'⟩ | ⟨hnone, hrows', _⟩⟩
  · refine ⟨before, [r], after, ?_, hrows', hbefore, Or.inl ⟨r, rfl, hr⟩⟩
    rw [hrows, List.append_assoc]
    rfl
  · refine ⟨rows, [], [], ?_, hrows', hnone, Or.inr ⟨rfl, rfl⟩⟩
    rw [List.append_nil, List.append_nil]

section

variable (hwritable : Writable { npub, email })
  (h : submitRows caps (loadQueue text) currentBytes npub email = .ok (row, rows'))

include hwritable h

theorem writable_submitRows : forall r, r ∈ rows' -> Writable r := by
  rw [<- (submitRows_cases h).left] at hwritable
  exact (placed_of_submitRows h).forall_mem hwritable fun r hr => (mem_loadQueue hr).left

theorem loadQueue_submitRows :
    Placed npub (settle row) (loadQueue text) (loadQueue (writeQueue rows')) := by
  rw [loadQueue_writeQueue (writable_submitRows hwritable h)]
  exact (placed_of_submitRows h).map_settle fun r hr => settle_of_clean (mem_loadQueue hr).right

end

end Placed

end Queue
end Splora
