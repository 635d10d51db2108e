import Splora.Foundation.Text

/-!
# Lines of a text

A carriage return before a line feed belongs to the line ending; the last line needs none.  What
comes after a line feed is read on its own.
-/

namespace Splora
namespace Foundation
namespace Text

def stripCr (line : Text) : Text :=
  if line.getLast? = some '\r' then line.dropLast else line

def linesFrom (read : Text) : Text -> List Text
  | [] => if read = [] then [] else [read]
  | c :: rest =>
    if c = '\n' then
      stripCr read :: linesFrom [] rest
    else
      linesFrom (read ++ [c]) rest

def lines (t : Text) : List Text :=
  linesFrom [] t

def unlines (ls : List Text) : Text :=
  ls.flatMap fun line => line ++ ['\n']

/-!
## Reading
-/

section Reading

variable {read line s rest t : Text} {ls : List Text}

theorem linesFrom_append (h : '\n' ∉ s) :
    linesFrom read (s ++ rest) = linesFrom (read ++ s) rest := by
  induction s generalizing read with
  | nil => rw [List.nil_append, List.append_nil]
  | cons c s ih =>
    rw [List.mem_cons, not_or] at h
    rw [List.cons_append, linesFrom, if_neg (Ne.symm h.left), ih h.right, List.append_assoc]
    rfl

theorem linesFrom_lineFeed : linesFrom read ('\n' :: rest) = stripCr read :: lines rest := by
  rw [linesFrom, if_pos rfl, lines]

theorem lines_cons (h : '\n' ∉ line) :
    lines (line ++ '\n' :: rest) = stripCr line :: lines rest := by
  rw [lines, linesFrom_append h, List.nil_append, linesFrom_lineFeed]

theorem linesFrom_append_lineFeed (read s rest : Text) :
    linesFrom read (s ++ '\n' :: rest) = linesFrom read (s ++ ['\n']) ++ lines rest := by
  induction s generalizing read with
  | nil =>
    rw [List.nil_append, List.nil_append, linesFrom_lineFeed, linesFrom_lineFeed]
    rfl
  | cons c s ih =>
    rw [List.cons_append, List.cons_append, linesFrom, linesFrom]
    by_cases hc : c = '\n'
    · rw [if_pos hc, if_pos hc, ih, List.cons_append]
    · rw [if_neg hc, if_neg hc, ih]

theorem lines_append_lineFeed (s rest : Text) :
    lines (s ++ '\n' :: rest) = lines (s ++ ['\n']) ++ lines rest :=
  linesFrom_append_lineFeed [] s rest

theorem unlines_cons (line : Text) (ls : List Text) :
    unlines (line :: ls) = line ++ '\n' :: unlines ls := by
  rw [unlines, List.flatMap_cons, List.append_assoc]
  rfl

theorem lines_unlines (h : forall line, line ∈ ls -> '\n' ∉ line) :
    lines (unlines ls) = ls.map stripCr := by
  induction ls with
  | nil => rfl
  | cons line ls ih =>
    rw [unlines_cons, lines_cons (h line List.mem_cons_self), List.map_cons,
      ih fun line' hline' => h line' (List.mem_cons_of_mem _ hline')]

theorem mem_of_mem_stripCr {c : Char} (h : c ∈ stripCr line) : c ∈ line := by
  unfold stripCr at h
  split at h
  · exact List.mem_of_mem_dropLast h
  · exact h

theorem mem_of_mem_linesFrom (h : line ∈ linesFrom read t) {c : Char}
    (hc : c ∈ line) : c ∈ read ∨ c ∈ t ∧ c ≠ '\n' := by
  induction t generalizing read with
  | nil =>
    rw [linesFrom] at h
    split at h
    · cases h
    · rw [List.mem_singleton.mp h] at hc
      exact Or.inl hc
  | cons c' rest ih =>
    rw [linesFrom] at h
    split at h
    · rcases List.mem_cons.mp h with heq | hrest
      · rw [heq] at hc
        exact Or.inl (mem_of_mem_stripCr hc)
      · rcases ih hrest with hread | ⟨hmem, hne⟩
        · cases hread
        · exact Or.inr ⟨List.mem_cons_of_mem _ hmem, hne⟩
    · rename_i hne
      rcases ih h with hread | ⟨hmem, hne'⟩
      · rcases List.mem_append.mp hread with hread | hlast
        · exact Or.inl hread
        · rw [List.mem_singleton.mp hlast]
          exact Or.inr ⟨List.mem_cons_self, hne⟩
      · exact Or.inr ⟨List.mem_cons_of_mem _ hmem, hne'⟩

theorem mem_of_mem_lines (h : line ∈ lines t) {c : Char} (hc : c ∈ line) : c ∈ t ∧ c ≠ '\n' := by
  rcases mem_of_mem_linesFrom h hc with hread | hmem
  · cases hread
  · exact hmem

theorem not_mem_of_mem_lines (h : line ∈ lines t) : '\n' ∉ line := by
  intro hc
  exact (mem_of_mem_lines h hc).right rfl

theorem stripCr_of_ne (h : line.getLast? ≠ some '\r') : stripCr line = line :=
  if_neg h

theorem stripCr_eq_self : stripCr line = line <-> line.getLast? ≠ some '\r' := by
  constructor
  · intro h hlast
    rw [stripCr, if_pos hlast] at h
    rcases List.getLast?_eq_some_iff.mp hlast with ⟨front, hfront⟩
    rw [hfront, List.dropLast_concat] at h
    exact absurd (congrArg List.length h) (by simp)
  · exact stripCr_of_ne

end Reading

/-!
## White space at the ends
-/

section Trim

variable {line t : Text} {c : Char}

theorem trim_append_whitespace (h : isWhitespace c = true) : trim (t ++ [c]) = trim t := by
  unfold trim
  by_cases hall : forall d, d ∈ t -> isWhitespace d = true
  · have hall' : forall d, d ∈ t ++ [c] -> isWhitespace d = true := by
      intro d hd
      rcases List.mem_append.mp hd with hd | hd
      · exact hall d hd
      · rw [List.mem_singleton.mp hd]
        exact h
    rw [List.dropWhile_eq_nil_iff.mpr hall, List.dropWhile_eq_nil_iff.mpr hall']
  · have hne : t.dropWhile isWhitespace ≠ [] := by
      intro hnil
      exact hall (List.dropWhile_eq_nil_iff.mp hnil)
    have happend : (t ++ [c]).dropWhile isWhitespace = t.dropWhile isWhitespace ++ [c] := by
      rw [List.dropWhile_append, if_neg]
      rw [List.isEmpty_iff]
      exact hne
    rw [happend, List.rdropWhile_concat_pos _ _ _ h]

theorem trim_stripCr (line : Text) : trim (stripCr line) = trim line := by
  unfold stripCr
  split
  · rename_i hlast
    rcases List.getLast?_eq_some_iff.mp hlast with ⟨front, hfront⟩
    rw [hfront, List.dropLast_concat]
    exact (trim_append_whitespace (by decide)).symm
  · rfl

theorem trim_sublist (t : Text) : (trim t).Sublist t :=
  (List.rdropWhile_prefix isWhitespace _).sublist.trans (List.dropWhile_sublist isWhitespace)

theorem mem_of_mem_trim (h : c ∈ trim t) : c ∈ t :=
  (trim_sublist t).subset h

theorem head?_trim (h : (trim t).head? = some c) : isWhitespace c = false := by
  have hpre : trim t <+: t.dropWhile isWhitespace :=
    List.rdropWhile_prefix isWhitespace _
  have hhead : (t.dropWhile isWhitespace).head? = some c := by
    rcases hpre with ⟨rest, hrest⟩
    rw [<- hrest, List.head?_append, h, Option.some_or]
  have hnot := List.head?_dropWhile_not isWhitespace t
  rw [hhead] at hnot
  exact hnot

theorem getLast?_trim (h : (trim t).getLast? = some c) : isWhitespace c = false := by
  have hne : trim t ≠ [] := by
    intro hnil
    rw [hnil] at h
    cases h
  have hlast := List.rdropWhile_last_not isWhitespace (t.dropWhile isWhitespace) hne
  rw [List.getLast?_eq_some_getLast hne] at h
  rw [<- Option.some.inj h]
  exact Bool.eq_false_iff.mpr hlast

theorem rdropWhile_append_cons {p : Char -> Bool} {a b : Text} (h : p c = false) :
    (a ++ c :: b).rdropWhile p = a ++ c :: b.rdropWhile p := by
  induction b using List.reverseRecOn with
  | nil =>
    rw [List.rdropWhile_concat, h]
    rfl
  | append_singleton b d ih =>
    rw [<- List.cons_append, <- List.append_assoc, List.rdropWhile_concat, List.rdropWhile_concat]
    by_cases hd : p d = true
    · rw [if_pos hd, if_pos hd, ih]
    · rw [if_neg hd, if_neg hd, List.append_assoc, List.cons_append]

theorem trim_rdropWhile (t : Text) : trim (t.rdropWhile isWhitespace) = trim t := by
  induction t using List.reverseRecOn with
  | nil => rfl
  | append_singleton t c ih =>
    rw [List.rdropWhile_concat]
    by_cases hc : isWhitespace c = true
    · rw [if_pos hc, ih, trim_append_whitespace hc]
    · rw [if_neg hc]

theorem trim_append_cons {a b : Text} (ha : trim a = a) (hne : a ≠ [])
    (hc : isWhitespace c = false) :
    trim (a ++ c :: b) = a ++ c :: b.rdropWhile isWhitespace := by
  have hdrop : (a ++ c :: b).dropWhile isWhitespace = a ++ c :: b := by
    cases a with
    | nil => exact absurd rfl hne
    | cons d a =>
      have hd : isWhitespace d = false := by
        apply head?_trim
        rw [ha]
        rfl
      rw [List.cons_append, List.dropWhile_cons_of_neg (by rw [hd]; simp)]
  rw [trim, hdrop, rdropWhile_append_cons hc]

theorem trim_trim (t : Text) : trim (trim t) = trim t :=
  trim_eq_self (fun _ h => head?_trim h) (fun _ h => getLast?_trim h)

end Trim

end Text
end Foundation
end Splora
