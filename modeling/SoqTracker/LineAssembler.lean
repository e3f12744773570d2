import SoqTracker.Blocks
import SoqTracker.Delimited
import Mathlib.Data.List.Induction

/- A reader that collects symbols into a bounded buffer and gives a line at each
   mark. It passes over one symbol, drops empty lines, and empties the buffer
   when a symbol no longer fits. -/
namespace SoqTracker.LineAssembler
open Blocks Delimited

structure Framing (Symbol : Type) where
  mark : Symbol
  skipped : Symbol
  capacity : Nat

variable {Symbol : Type} [DecidableEq Symbol] (f : Framing Symbol)

def accept (buffer : List Symbol) (c : Symbol) : List Symbol × Option (List Symbol) :=
  if c = f.skipped then (buffer, none)
  else if c = f.mark then ([], if buffer = [] then none else some buffer)
  else if buffer.length < f.capacity then (buffer ++ [c], none)
  else ([], none)

/-- The buffer after a stream, and the lines it gave. -/
def assemble : List Symbol → List Symbol → List Symbol × List (List Symbol)
  | buffer, [] => (buffer, [])
  | buffer, c :: cs =>
      ((assemble (accept f buffer c).1 cs).1,
        (accept f buffer c).2.toList ++ (assemble (accept f buffer c).1 cs).2)

structure Carried (line : List Symbol) : Prop where
  filled : line ≠ []
  fits : line.length ≤ f.capacity
  unmarked : f.mark ∉ line
  unskipped : f.skipped ∉ line

variable {f}

theorem assemble_append (buffer xs ys : List Symbol) :
    assemble f buffer (xs ++ ys) =
      ((assemble f (assemble f buffer xs).1 ys).1,
        (assemble f buffer xs).2 ++ (assemble f (assemble f buffer xs).1 ys).2) := by
  induction xs generalizing buffer with
  | nil => simp [assemble]
  | cons c xs ih => simp [assemble, ih]

theorem assemble_push (buffer xs : List Symbol) (c : Symbol) :
    assemble f buffer (xs ++ [c]) =
      ((accept f (assemble f buffer xs).1 c).1,
        (assemble f buffer xs).2 ++ (accept f (assemble f buffer xs).1 c).2.toList) := by
  rw [assemble_append]
  simp [assemble]

theorem assemble_skips (buffer text : List Symbol) :
    assemble f buffer text = assemble f buffer (text.filter (· ≠ f.skipped)) := by
  induction text generalizing buffer with
  | nil => rfl
  | cons c text ih =>
    by_cases skipped : c = f.skipped
    · have step : accept f buffer c = (buffer, none) := by simp [accept, skipped]
      rw [List.filter_cons_of_neg (by simp [skipped]), assemble, step]
      simpa using ih buffer
    · rw [List.filter_cons_of_pos (by simp [skipped]), assemble, assemble, ih]

theorem assemble_leftovers {text : List Symbol} (distinct : f.mark ≠ f.skipped)
    (unskipped : f.skipped ∉ text) :
    assemble f [] text =
      (leftover (f.capacity + 1) (rest f.mark text),
        ((segments f.mark text).map (leftover (f.capacity + 1))).filter (· ≠ [])) := by
  induction text using List.reverseRecOn with
  | nil => simp [assemble, rest, segments, leftover]
  | append_singleton text c ih =>
    simp only [List.mem_append, List.mem_singleton, not_or] at unskipped
    have size := leftover_length (f.capacity + 1) (rest f.mark text)
    rw [assemble_push, ih unskipped.1, segments_push, rest_push]
    by_cases mark : c = f.mark
    · subst mark
      by_cases nothing : leftover (f.capacity + 1) (rest f.mark text) = []
      · simp [accept, distinct, nothing, leftover_nothing]
      · simp [accept, distinct, nothing, leftover_nothing]
    · have positive : 0 < f.capacity + 1 := Nat.succ_pos f.capacity
      have small := Nat.mod_lt (rest f.mark text).length positive
      have pushed := leftover_push positive (rest f.mark text) c
      simp only [accept, Ne.symm unskipped.2, mark, if_false, size, List.append_nil]
      by_cases fills : (rest f.mark text).length % (f.capacity + 1) + 1 = f.capacity + 1
      · have full : ¬ (rest f.mark text).length % (f.capacity + 1) < f.capacity := by omega
        rw [if_neg full, pushed, if_pos fills]
        simp
      · have room : (rest f.mark text).length % (f.capacity + 1) < f.capacity := by omega
        rw [if_pos room, pushed, if_neg fills]
        simp

theorem assemble_collects (buffer : List Symbol) {text : List Symbol}
    (fits : buffer.length + text.length ≤ f.capacity) (unmarked : f.mark ∉ text)
    (unskipped : f.skipped ∉ text) : assemble f buffer text = (buffer ++ text, []) := by
  induction text generalizing buffer with
  | nil => simp [assemble]
  | cons c text ih =>
    simp only [List.mem_cons, not_or] at unmarked unskipped
    rw [List.length_cons] at fits
    have room : buffer.length < f.capacity := by omega
    have step : accept f buffer c = (buffer ++ [c], none) := by
      simp [accept, Ne.symm unmarked.1, Ne.symm unskipped.1, room]
    have later := ih (buffer ++ [c])
      (by rw [List.length_append, List.length_singleton]; omega) unmarked.2 unskipped.2
    simp [assemble, step, later]

theorem assemble_line {line : List Symbol} (carried : Carried f line) (distinct : f.mark ≠ f.skipped)
    (later : List Symbol) :
    assemble f [] (line ++ f.mark :: later) =
      ((assemble f [] later).1, line :: (assemble f [] later).2) := by
  have collected : assemble f [] line = (line, []) := by
    have whole := assemble_collects [] (by simpa using carried.fits)
      carried.unmarked carried.unskipped
    simpa using whole
  have step : accept f line f.mark = ([], some line) := by
    simp [accept, distinct, carried.filled]
  rw [assemble_append, collected]
  simp [assemble, step]

/-- On any delivered part of a stream of carried lines the reader gives exactly
    the completed lines and holds the beginning of the next one. -/
theorem assemble_delivered (distinct : f.mark ≠ f.skipped) {lines : List (List Symbol)}
    (carried : ∀ line ∈ lines, Carried f line) {part : List Symbol}
    (delivered : part <+: joined f.mark lines) :
    assemble f [] part = (rest f.mark part, segments f.mark part) := by
  induction lines generalizing part with
  | nil =>
    have nothing : part = [] := by simpa using delivered
    simp [nothing, assemble, rest, segments]
  | cons line lines ih =>
    have here := carried line (by simp)
    rw [joined_cons] at delivered
    rcases List.prefix_or_prefix_of_prefix delivered (List.prefix_append line _) with
      within | past
    · have unmarked : f.mark ∉ part := fun mem => here.unmarked (within.subset mem)
      have unskipped : f.skipped ∉ part := fun mem => here.unskipped (within.subset mem)
      have fits : part.length ≤ f.capacity := Nat.le_trans within.length_le here.fits
      rw [assemble_collects [] (by simpa using fits) unmarked unskipped, rest, segments,
        cut_unmarked f.mark part unmarked]
      rfl
    · obtain ⟨tail, same⟩ := past
      rw [← same, List.prefix_append_right_inj] at delivered
      rcases List.prefix_cons_iff.mp delivered with nothing | ⟨tail', split, delivered'⟩
      · rw [nothing, List.append_nil] at same
        subst same
        rw [assemble_collects [] (by simpa using here.fits) here.unmarked here.unskipped, rest,
          segments, cut_unmarked f.mark line here.unmarked]
        rfl
      · have later := ih (fun l mem => carried l (by simp [mem])) delivered'
        rw [← same, split, assemble_line here distinct, later]
        simp only [rest, segments, cut_line f.mark line tail' here.unmarked]

end SoqTracker.LineAssembler
