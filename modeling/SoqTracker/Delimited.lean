import Mathlib.Data.List.Basic

/- Streams of symbols cut into segments at a mark. The mark ends a segment and
   belongs to none; what follows the last mark is an unfinished rest. -/
namespace SoqTracker.Delimited
variable {Symbol : Type}

def joined (mark : Symbol) (lines : List (List Symbol)) : List Symbol :=
  lines.flatMap (· ++ [mark])

@[simp] theorem joined_nil (mark : Symbol) : joined mark [] = [] := rfl

@[simp] theorem joined_cons (mark : Symbol) (line : List Symbol) (lines : List (List Symbol)) :
    joined mark (line :: lines) = line ++ mark :: joined mark lines := by
  simp [joined]

variable [DecidableEq Symbol]

def cut (mark : Symbol) : List Symbol → List (List Symbol) × List Symbol
  | [] => ([], [])
  | c :: cs =>
      if c = mark then ([] :: (cut mark cs).1, (cut mark cs).2)
      else match (cut mark cs).1 with
        | [] => ([], c :: (cut mark cs).2)
        | first :: later => ((c :: first) :: later, (cut mark cs).2)

def segments (mark : Symbol) (xs : List Symbol) : List (List Symbol) := (cut mark xs).1
def rest (mark : Symbol) (xs : List Symbol) : List Symbol := (cut mark xs).2

def fields (mark : Symbol) (xs : List Symbol) : List (List Symbol) :=
  segments mark xs ++ [rest mark xs]

@[simp] theorem cut_nil (mark : Symbol) : cut mark [] = ([], []) := rfl

theorem cut_unmarked (mark : Symbol) (xs : List Symbol) (free : mark ∉ xs) :
    cut mark xs = ([], xs) := by
  induction xs with
  | nil => rfl
  | cons c cs ih =>
    have other : c ≠ mark := fun same => free (by simp [same])
    simp [cut, other, ih (fun mem => free (by simp [mem]))]

theorem cut_line (mark : Symbol) (line xs : List Symbol) (free : mark ∉ line) :
    cut mark (line ++ mark :: xs) = (line :: (cut mark xs).1, (cut mark xs).2) := by
  induction line with
  | nil => simp [cut]
  | cons c cs ih =>
    have other : c ≠ mark := fun same => free (by simp [same])
    simp [cut, other, ih (fun mem => free (by simp [mem]))]

theorem cut_append (mark : Symbol) (xs ys : List Symbol) :
    cut mark (xs ++ ys) =
      ((cut mark xs).1 ++ (cut mark ((cut mark xs).2 ++ ys)).1,
        (cut mark ((cut mark xs).2 ++ ys)).2) := by
  induction xs with
  | nil => simp
  | cons c cs ih =>
    by_cases same : c = mark
    · simp [cut, same, ih]
    · cases early : (cut mark cs).1 with
      | nil => simp [cut, same, ih, early]
      | cons first later => simp [cut, same, ih, early]

theorem rest_free (mark : Symbol) (xs : List Symbol) : mark ∉ rest mark xs := by
  induction xs with
  | nil => simp [rest]
  | cons c cs ih =>
    simp only [rest] at ih ⊢
    by_cases same : c = mark
    · simp [cut, same, ih]
    · cases early : (cut mark cs).1 with
      | nil => simp [cut, same, early, ih, Ne.symm same]
      | cons first later => simp [cut, same, early, ih]

theorem rejoin (mark : Symbol) (xs : List Symbol) :
    joined mark (segments mark xs) ++ rest mark xs = xs := by
  induction xs with
  | nil => rfl
  | cons c cs ih =>
    simp only [segments, rest] at ih ⊢
    by_cases same : c = mark
    · simp [cut, same, ih]
    · cases early : (cut mark cs).1 with
      | nil =>
        rw [early] at ih
        simp only [joined_nil, List.nil_append] at ih
        simp [cut, same, early, ih]
      | cons first later =>
        rw [early] at ih
        simp only [cut, same, early, if_false]
        simpa using ih

theorem mem_segment {mark c : Symbol} {xs line : List Symbol} (placed : line ∈ segments mark xs)
    (mem : c ∈ line) : c ∈ xs := by
  rw [← rejoin mark xs]
  apply List.mem_append_left
  rw [joined, List.mem_flatMap]
  exact ⟨line, placed, List.mem_append_left _ mem⟩

theorem mem_rest {mark c : Symbol} {xs : List Symbol} (mem : c ∈ rest mark xs) : c ∈ xs := by
  rw [← rejoin mark xs]
  exact List.mem_append_right _ mem

theorem mem_field {mark c : Symbol} {xs line : List Symbol} (placed : line ∈ fields mark xs)
    (mem : c ∈ line) : c ∈ xs := by
  rcases List.mem_append.mp placed with segment | last
  · exact mem_segment segment mem
  · rw [List.mem_singleton.mp last] at mem
    exact mem_rest mem

theorem segments_length (mark : Symbol) (xs : List Symbol) :
    (segments mark xs).length = xs.count mark := by
  induction xs with
  | nil => rfl
  | cons c cs ih =>
    simp only [segments] at ih ⊢
    by_cases same : c = mark
    · simp [cut, same, ih]
    · cases early : (cut mark cs).1 with
      | nil => simpa [cut, same, early] using ih
      | cons first later => simpa [cut, same, early] using ih

theorem segments_append (mark : Symbol) (xs ys : List Symbol) :
    segments mark (xs ++ ys) = segments mark xs ++ segments mark (rest mark xs ++ ys) := by
  rw [segments, cut_append]
  rfl

theorem rest_append (mark : Symbol) (xs ys : List Symbol) :
    rest mark (xs ++ ys) = rest mark (rest mark xs ++ ys) := by
  rw [rest, cut_append]
  rfl

theorem cut_push (mark c : Symbol) (xs : List Symbol) :
    cut mark (xs ++ [c]) =
      if c = mark then (segments mark xs ++ [rest mark xs], [])
      else (segments mark xs, rest mark xs ++ [c]) := by
  have free := rest_free mark xs
  rw [cut_append]
  by_cases same : c = mark
  · subst same
    have ended := cut_line c (rest c xs) [] free
    rw [rest] at ended
    rw [if_pos rfl, ended]
    rfl
  · have joins := cut_unmarked mark (rest mark xs ++ [c]) (by simp [free, Ne.symm same])
    rw [rest] at joins
    rw [if_neg same, joins, List.append_nil]
    rfl

theorem segments_push (mark c : Symbol) (xs : List Symbol) :
    segments mark (xs ++ [c]) =
      segments mark xs ++ if c = mark then [rest mark xs] else [] := by
  rw [segments, cut_push]
  by_cases same : c = mark
  · simp [same]
  · simp [same]

theorem rest_push (mark c : Symbol) (xs : List Symbol) :
    rest mark (xs ++ [c]) = if c = mark then [] else rest mark xs ++ [c] := by
  rw [rest, cut_push]
  by_cases same : c = mark
  · simp [same]
  · simp [same]

theorem cut_joined (mark : Symbol) (lines : List (List Symbol)) (tail : List Symbol)
    (free : ∀ line ∈ lines, mark ∉ line) :
    cut mark (joined mark lines ++ tail) = (lines ++ (cut mark tail).1, (cut mark tail).2) := by
  induction lines with
  | nil => simp
  | cons line lines ih =>
    have later := ih (fun l mem => free l (by simp [mem]))
    rw [joined_cons, List.append_assoc, List.cons_append, cut_line mark line _ (free line (by simp)),
      later]
    simp

theorem segments_joined (mark : Symbol) (lines : List (List Symbol))
    (free : ∀ line ∈ lines, mark ∉ line) : segments mark (joined mark lines) = lines := by
  have whole := cut_joined mark lines [] free
  simp only [List.append_nil] at whole
  simp [segments, whole]

/-- A delivered front part of the stream completes the first lines, one for
    each mark in it, and nothing else. -/
theorem segments_delivered (mark : Symbol) (lines : List (List Symbol)) (part : List Symbol)
    (free : ∀ line ∈ lines, mark ∉ line) (delivered : part <+: joined mark lines) :
    segments mark part = lines.take (part.count mark) := by
  obtain ⟨later, whole⟩ := delivered
  have same : segments mark part ++ segments mark (rest mark part ++ later) = lines := by
    rw [← segments_append, whole, segments_joined mark lines free]
  rw [← segments_length, ← same]
  simp

end SoqTracker.Delimited
