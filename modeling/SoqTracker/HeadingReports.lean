import SoqTracker.Polling
import SoqTracker.DecimalText
import SoqTracker.Firmware
import Mathlib.Tactic.Positivity

/- Heading reports from the firmware, read from any point of the stream and cut
   into any reads. A report that was joined in the middle has lost its leading H
   and is no heading. -/
namespace SoqTracker.HeadingReports
open ExtendedNumber Decimal Json Controller Delimited

/- The reports. -/

/-- A heading in degrees with one fractional digit, and the calibration status. -/
structure LiveReport where
  whole : List Char
  tenth : Char
  calibration : List Char
  whole_digits : Digits whole
  whole_filled : whole ≠ []
  tenth_digit : tenth.isDigit
  calibration_digits : Digits calibration
  calibration_filled : calibration ≠ []
  bounded : Nat.ofDigitChars 10 (whole ++ [tenth]) 0 ≤ 3600

namespace LiveReport

def tenths (r : LiveReport) : Nat := Nat.ofDigitChars 10 (r.whole ++ [r.tenth]) 0

def degrees {α : Type} [Field α] (r : LiveReport) : α := (r.tenths : α) / 10

def sysCal (r : LiveReport) : Nat := Nat.ofDigitChars 10 r.calibration 0

def headingPart (r : LiveReport) : List Char := 'H' :: ':' :: (r.whole ++ '.' :: [r.tenth])

def calibrationPart (r : LiveReport) : List Char := "CAL:".toList ++ r.calibration

end LiveReport

inductive Report where
  | down
  | live (r : LiveReport)

namespace Report

def text : Report → List Char
  | down => "IMU:0".toList
  | live r => r.headingPart ++ ',' :: ("IMU:1".toList ++ ',' :: r.calibrationPart)

def line (r : Report) : List Char := r.text ++ ['\r']

def size (r : Report) : Nat := r.line.length + 1

end Report

def stream (reports : List Report) : List Char := joined '\n' (reports.map Report.line)

/-- The reports of which every character lies from place start up to place stop,
    both counted from the first report of the list. -/
def wholeReports : Nat → Nat → List Report → List Report
  | _, _, [] => []
  | start, stop, r :: later =>
      if start = 0 ∧ r.size ≤ stop then r :: wholeReports 0 (stop - r.size) later
      else wholeReports (start - r.size) (stop - r.size) later

/- Characters. -/

theorem flag_chars (value : Char) (digit : value.isDigit) :
    ∀ c ∈ "IMU:".toList ++ [value], c.isDigit ∨ c ∈ "HIMUCAL:.,".toList := by
  have name : ∀ c ∈ "IMU:".toList, c ∈ "HIMUCAL:.,".toList := each_char (by decide)
  intro c mem
  rcases List.mem_append.mp mem with inside | last
  · exact Or.inr (name c inside)
  · exact Or.inl (by rw [List.mem_singleton.mp last]; exact digit)

theorem text_chars (r : Report) :
    ∀ c ∈ r.text, c.isDigit ∨ c ∈ "HIMUCAL:.,".toList := by
  intro c mem
  cases r with
  | down =>
    exact flag_chars '0' rfl c mem
  | live r =>
    simp only [Report.text, LiveReport.headingPart, LiveReport.calibrationPart, List.mem_append,
      List.mem_cons, List.not_mem_nil, or_false] at mem
    rcases mem with (rfl | rfl | mem | rfl | rfl) | rfl | mem | rfl | mem | mem
    · simp
    · simp
    · exact Or.inl (r.whole_digits c mem)
    · simp
    · exact Or.inl r.tenth_digit
    · simp
    · exact flag_chars '1' rfl c mem
    · simp
    · exact Or.inr (each_char (by decide) c mem)
    · exact Or.inl (r.calibration_digits c mem)

theorem word_plain : ∀ c ∈ "HIMUCAL:.,".toList, Plain c ∧ c ≠ '\n' ∧ c ≠ '\x7b' := by
  simp only [Plain]
  exact each_char (by decide)

theorem text_plain (r : Report) : ∀ c ∈ r.text, Plain c ∧ c ≠ '\n' ∧ c ≠ '\x7b' := by
  intro c mem
  rcases text_chars r c mem with digit | word
  · exact ⟨digit_plain digit, digit_ne digit rfl, digit_ne digit rfl⟩
  · exact word_plain c word

theorem line_unmarked (r : Report) : '\n' ∉ r.line := by
  intro mem
  rcases List.mem_append.mp mem with inside | last
  · exact (text_plain r '\n' inside).2.1 rfl
  · simp at last

theorem line_unbraced (r : Report) : '\x7b' ∉ r.line := by
  intro mem
  rcases List.mem_append.mp mem with inside | last
  · exact (text_plain r '\x7b' inside).2.2 rfl
  · simp at last

/-- Only the very first character of a report can be an H. -/
theorem line_later_H (r : Report) : 'H' ∉ r.line.drop 1 := by
  cases r with
  | down => decide
  | live r =>
    have whole : 'H' ∉ r.whole := fun mem => absurd (r.whole_digits _ mem) (by decide)
    have tenth : 'H' ≠ r.tenth := fun same => absurd (same ▸ r.tenth_digit) (by decide)
    have calibration : 'H' ∉ r.calibration :=
      fun mem => absurd (r.calibration_digits _ mem) (by decide)
    simp [Report.line, Report.text, LiveReport.headingPart, LiveReport.calibrationPart, whole,
      tenth, calibration]

theorem stream_ascii (reports : List Report) : Utf8.Ascii (stream reports) := by
  intro c mem
  obtain ⟨line, placed, mem⟩ := List.mem_flatMap.mp mem
  obtain ⟨r, _, same⟩ := List.mem_map.mp placed
  rw [← same, Report.line, List.append_assoc] at mem
  rcases List.mem_append.mp mem with inside | ending
  · exact Nat.lt_succ_of_lt (text_plain r c inside).1.1
  · have small : ∀ c ∈ ['\r'] ++ ['\n'], c.toNat < 128 := each_char (by decide)
    exact small c ending

/- Cutting the stream anywhere. -/

theorem stream_cons (r : Report) (later : List Report) :
    stream (r :: later) = r.line ++ '\n' :: stream later := by
  rw [stream, List.map_cons, joined_cons]
  rfl

theorem take_past_line {line tail : List Char} {stop : Nat} (past : line.length + 1 ≤ stop) :
    (line ++ '\n' :: tail).take stop = line ++ '\n' :: tail.take (stop - (line.length + 1)) := by
  obtain ⟨more, rfl⟩ := Nat.exists_eq_add_of_le past
  rw [List.take_append, List.take_of_length_le (by omega)]
  have left : line.length + 1 + more - line.length = more + 1 := by omega
  rw [left, List.take_succ_cons, Nat.add_sub_cancel_left]

theorem take_within_line {line tail : List Char} {stop : Nat} (within : ¬ line.length + 1 ≤ stop) :
    (line ++ '\n' :: tail).take stop = line.take stop :=
  List.take_append_of_le_length (by omega)

theorem wholeReports_none (start : Nat) (reports : List Report) :
    wholeReports start 0 reports = [] := by
  induction reports generalizing start with
  | nil => rfl
  | cons r later ih =>
    have positive : ¬ r.size ≤ 0 := by simp [Report.size]
    rw [wholeReports, if_neg (fun both => positive both.2), Nat.zero_sub]
    exact ih _

theorem segments_from_start (reports : List Report) (stop : Nat) :
    segments '\n' ((stream reports).take stop) =
      (wholeReports 0 stop reports).map Report.line := by
  induction reports generalizing stop with
  | nil => simp [stream, wholeReports, segments]
  | cons r later ih =>
    rw [stream_cons, wholeReports]
    by_cases past : r.size ≤ stop
    · rw [take_past_line past, segments, cut_line '\n' r.line _ (line_unmarked r),
        if_pos ⟨rfl, past⟩, List.map_cons, ← ih]
      rfl
    · have short : stop - r.size = 0 := by omega
      have free : '\n' ∉ r.line.take stop := fun mem => line_unmarked r (List.mem_of_mem_take mem)
      rw [take_within_line past, segments, cut_unmarked '\n' _ free, if_neg (fun both => past both.2),
        short, wholeReports_none]
      rfl

def Headless (line : List Char) : Prop := 'H' ∉ line ∧ '\x7b' ∉ line

theorem segments_from_middle (reports : List Report) (start stop : Nat) :
    ∃ joinedLate, (∀ line ∈ joinedLate, Headless line) ∧
      segments '\n' (((stream reports).take stop).drop start) =
        joinedLate ++ (wholeReports start stop reports).map Report.line := by
  induction reports generalizing start stop with
  | nil => exact ⟨[], by simp, by simp [stream, wholeReports, segments]⟩
  | cons r later ih =>
    by_cases early : start = 0
    · refine ⟨[], by simp, ?_⟩
      rw [early, List.drop_zero, segments_from_start]
      rfl
    · rw [stream_cons, wholeReports, if_neg (fun both => early both.1)]
      by_cases past : r.size ≤ stop
      · rw [take_past_line past]
        by_cases inside : start ≤ r.line.length
        · have late : start - r.size = 0 := by
            simp only [Report.size]
            omega
          have free : '\n' ∉ r.line.drop start :=
            fun mem => line_unmarked r (List.mem_of_mem_drop mem)
          refine ⟨[r.line.drop start], ?_, ?_⟩
          · intro line mem
            rw [List.mem_singleton.mp mem]
            constructor
            · intro mem
              have split : r.line.drop start = (r.line.drop 1).drop (start - 1) := by
                rw [List.drop_drop]
                congr 1
                omega
              rw [split] at mem
              exact line_later_H r (List.mem_of_mem_drop mem)
            · exact fun mem => line_unbraced r (List.mem_of_mem_drop mem)
          · rw [List.drop_append_of_le_length inside, segments, cut_line '\n' _ _ free, late,
              ← segments_from_start]
            rfl
        · have beyond : start = r.line.length + (start - r.size + 1) := by
            simp only [Report.size]
            omega
          have dropped : (r.line ++ '\n' :: (stream later).take (stop - (r.line.length + 1))).drop
              start = ((stream later).take (stop - r.size)).drop (start - r.size) := by
            conv_lhs => rw [beyond]
            rw [List.drop_append, List.drop_eq_nil_of_le (by omega), List.nil_append,
              Nat.add_sub_cancel_left, List.drop_succ_cons]
            rfl
          rw [dropped]
          exact ih _ _
      · have short : stop - r.size = 0 := by omega
        have free : '\n' ∉ (r.line.take stop).drop start :=
          fun mem => line_unmarked r (List.mem_of_mem_take (List.mem_of_mem_drop mem))
        rw [take_within_line past, segments, cut_unmarked '\n' _ free, short, wholeReports_none]
        exact ⟨[], by simp, rfl⟩

/- Parsing a line. -/

theorem strip_mem {c : Char} {text : List Char} (mem : c ∈ strip text) : c ∈ text := by
  rw [strip, stripBy, List.mem_reverse] at mem
  have inner := (List.dropWhile_suffix isSpace).subset mem
  rw [List.mem_reverse] at inner
  exact (List.dropWhile_suffix isSpace).subset inner

theorem part_mem {c : Char} {line part : List Char} (placed : part ∈ parts line) (mem : c ∈ part) :
    c ∈ line := by
  obtain ⟨whole, _⟩ := List.mem_filter.mp placed
  obtain ⟨field, placed', same⟩ := List.mem_map.mp whole
  rw [← same] at mem
  exact mem_field placed' (strip_mem mem)

section Parsing
variable {α : Type} [Field α] [LinearOrder α]

theorem parse_headless (py : Python α) {line : List Char} (headless : Headless line) :
    parseControllerLine py line = .ok none := by
  unfold parseControllerLine
  by_cases empty : strip line = []
  · simp [empty]
  · have unbraced : (strip line).head? ≠ some '\x7b' := by
      intro brace
      exact headless.2 (strip_mem (List.mem_of_head? brace))
    simp only [empty, unbraced, if_false, Except.ok.injEq]
    cases done : parseFieldLine py (strip line) with
    | none => rfl
    | some parsed =>
      have unfound : (parts (strip line)).filter (startsWith "H:") = [] := by
        rw [List.filter_eq_nil_iff]
        intro part placed starts
        have head := startsWith_head (c := 'H') rfl starts
        exact headless.1 (strip_mem (part_mem placed (List.mem_of_head? head)))
      have heading := (parseFieldLine_spec done).1
      simp [unfound] at heading

theorem strip_plain {text : List Char} (plain : ∀ c ∈ text, Plain c) : strip text = text :=
  stripBy_free fun c mem => (plain c mem).2.1

theorem strip_return {text : List Char} (plain : ∀ c ∈ text, Plain c) :
    strip (text ++ ['\r']) = text := by
  have solid : ∀ c ∈ text, isSpace c = false := fun c mem => (plain c mem).2.1
  cases text with
  | nil => decide
  | cons c text =>
    have front : (c :: text ++ ['\r']).dropWhile isSpace = c :: text ++ ['\r'] := by
      simp [solid c (by simp)]
    have blank : isSpace '\r' = true := by decide
    have back := stripBy_free solid
    rw [stripBy] at back
    rw [strip, stripBy, front, List.reverse_append]
    simp only [List.reverse_singleton, List.singleton_append, List.dropWhile_cons, blank, if_true]
    have keep : (c :: text).dropWhile isSpace = c :: text := by simp [solid c (by simp)]
    rw [keep] at back
    exact back

theorem down_headless : Headless Report.down.line := by
  constructor
  · decide
  · decide

theorem fields_free (r : LiveReport) : ',' ∉ r.headingPart ∧ ',' ∉ r.calibrationPart := by
  have comma : ∀ c : Char, c.isDigit → ',' ≠ c := fun c digit => (digit_ne digit rfl).symm
  have whole : ',' ∉ r.whole := fun mem => comma _ (r.whole_digits _ mem) rfl
  have calibration : ',' ∉ r.calibration := fun mem => comma _ (r.calibration_digits _ mem) rfl
  simp [LiveReport.headingPart, LiveReport.calibrationPart, whole, calibration,
    comma r.tenth r.tenth_digit]

theorem live_parts (r : LiveReport) :
    parts (Report.live r).text = [r.headingPart, "IMU:1".toList, r.calibrationPart] := by
  obtain ⟨heading, calibration⟩ := fields_free r
  have imu : ',' ∉ "IMU:1".toList := by decide
  have split : fields ',' (Report.live r).text =
      [r.headingPart, "IMU:1".toList, r.calibrationPart] := by
    rw [fields, segments, rest, Report.text, cut_line ',' _ _ heading, cut_line ',' _ _ imu,
      cut_unmarked ',' _ calibration]
    rfl
  have plain : ∀ part ∈ [r.headingPart, "IMU:1".toList, r.calibrationPart], strip part = part := by
    intro part placed
    apply strip_plain
    intro c mem
    rw [← split] at placed
    exact (text_plain (.live r) c (mem_field placed mem)).1
  rw [parts, split, List.map_congr_left plain, List.map_id']
  rfl

variable [IsStrictOrderedRing α]

theorem headingPart_float (r : LiveReport) :
    pyFloat (afterColon r.headingPart) = some (.finite r.degrees : Number α) := by
  have tenth : Digits [r.tenth] := by
    intro c mem
    rw [List.mem_singleton.mp mem]
    exact r.tenth_digit
  have value : Literal.value 10 ⟨r.tenths, -1⟩ = (r.degrees : α) := by
    simp [Literal.value, LiveReport.degrees]
  have within : |(r.degrees : α)| ≤ (3600 : Nat) := by
    have bound : (r.tenths : α) ≤ (3600 : Nat) := by
      rw [Nat.cast_le]
      exact r.bounded
    have positive : (0 : α) ≤ r.tenths := Nat.cast_nonneg _
    unfold LiveReport.degrees
    rw [abs_of_nonneg (by positivity)]
    have fraction : (r.tenths : α) / 10 ≤ r.tenths := by linarith
    exact fraction.trans bound
  have text : afterColon r.headingPart = r.whole ++ '.' :: [r.tenth] := rfl
  rw [text, pyFloat_decimal r.whole_digits tenth r.whole_filled]
  have exact := Number.ofExact_small within (by decide)
  rw [← value] at exact
  refine congrArg some (exact.trans ?_)
  rw [value]

/-- int() of the calibration status, or None where the interpreter refuses to
    convert that many digits. -/
def calibrationRead (py : Python α) (r : LiveReport) : Value α :=
  if fitsDigits py.limits.digits r.calibration then .int r.sysCal else .null

omit [Field α] [LinearOrder α] [IsStrictOrderedRing α] in
theorem calibrationRead_short (py : Python α) (r : LiveReport)
    (short : r.calibration.length ≤ 640) : calibrationRead py r = .int r.sysCal := by
  apply if_pos
  rw [fitsDigits, Option.all_eq_true]
  intro most limited
  exact decide_eq_true (short.trans (py.limits.digits_floor most limited))

theorem live_read (py : Python α) (r : LiveReport) :
    [r.headingPart, "IMU:1".toList, r.calibrationPart].foldlM (readPart py) ({} : Fields α) =
      some ⟨some (.finite r.degrees), true, calibrationRead py r⟩ := by
  have heading : readPart py ({} : Fields α) r.headingPart =
      some { heading := some (.finite r.degrees) } := by
    rw [readPart, if_pos (by rfl), headingPart_float]
    rfl
  have imu : ∀ read : Fields α,
      readPart py read "IMU:1".toList = some { read with imuValid := true } := by
    intro read
    rfl
  have calibration : ∀ read : Fields α, readPart py read r.calibrationPart =
      some { read with calibration := calibrationRead py r } := by
    intro read
    have text : afterColon r.calibrationPart = r.calibration := rfl
    have other : ¬ startsWith "H:" r.calibrationPart := by
      simp [startsWith, List.isPrefixOf, LiveReport.calibrationPart]
    rw [readPart, if_neg other, if_pos (by rfl), text, calibrationRead]
    by_cases fits : fitsDigits py.limits.digits r.calibration
    · rw [pyInt_digits r.calibration_digits r.calibration_filled fits, if_pos fits]
      rfl
    · rw [pyInt_long r.calibration_digits r.calibration_filled fits, if_neg fits]
  simp only [List.foldlM_cons, List.foldlM_nil, heading, imu, calibration]
  rfl

theorem parse_live (py : Python α) (r : LiveReport) :
    parseControllerLine py (Report.live r).line =
      .ok (some ⟨.finite r.degrees, true, calibrationRead py r⟩) := by
  have stripped : strip (Report.live r).line = (Report.live r).text :=
    strip_return fun c mem => (text_plain (.live r) c mem).1
  have filled : (Report.live r).text ≠ [] := by simp [Report.text, LiveReport.headingPart]
  have unbraced : (Report.live r).text.head? ≠ some '\x7b' := by
    simp [Report.text, LiveReport.headingPart]
  simp only [parseControllerLine, stripped, filled, unbraced, if_false, parseFieldLine, live_parts,
    live_read]

end Parsing

/- Received reports. -/

def deliveredText (start stop : Nat) (reports : List Report) : List Char :=
  ((stream reports).take stop).drop start

def delivered (start stop : Nat) (reports : List Report) : List UInt8 :=
  ((Utf8.encode (stream reports)).take stop).drop start

theorem delivered_encode (start stop : Nat) (reports : List Report) :
    delivered start stop reports = Utf8.encode (deliveredText start stop reports) := by
  have plain := stream_ascii reports
  have cut : Utf8.Ascii (deliveredText start stop reports) := by
    intro c mem
    exact plain c (List.mem_of_mem_take (List.mem_of_mem_drop mem))
  rw [delivered, Utf8.encode_ascii _ plain, Utf8.encode_ascii _ cut, deliveredText, List.map_drop,
    List.map_take]

section Hearing
variable {α : Type} [Field α] [LinearOrder α] [IsStrictOrderedRing α]

def Report.parsed (py : Python α) : Report → Option (Parsed α)
  | .down => none
  | .live r => some ⟨.finite r.degrees, true, calibrationRead py r⟩

theorem parse_report (py : Python α) (r : Report) :
    parseControllerLine py r.line = .ok (r.parsed py) := by
  cases r with
  | down => exact parse_headless py down_headless
  | live r => exact parse_live py r

/-- No line of the delivered text raises, and those that parse as headings are
    the live reports among the whole ones. -/
theorem delivered_lines (py : Python α) (start stop : Nat) (reports : List Report) :
    (∀ line ∈ segments '\n' (deliveredText start stop reports), ¬ Raises py line) ∧
      (segments '\n' (deliveredText start stop reports)).filterMap (report py) =
        (wholeReports start stop reports).filterMap (Report.parsed py) := by
  obtain ⟨joinedLate, headless, lines⟩ := segments_from_middle reports start stop
  rw [deliveredText, lines]
  constructor
  · rintro line mem ⟨error, raised⟩
    rcases List.mem_append.mp mem with late | whole
    · simp [parse_headless py (headless line late)] at raised
    · obtain ⟨r, _, same⟩ := List.mem_map.mp whole
      rw [← same, parse_report] at raised
      simp at raised
  · have late : joinedLate.filterMap (report py) = [] := by
      rw [List.filterMap_eq_nil_iff]
      intro line mem
      simp only [report, parse_headless py (headless line mem)]
    have whole : ∀ r : Report, report py r.line = r.parsed py := by
      intro r
      simp only [report, parse_report]
    rw [List.filterMap_append, late, List.nil_append, List.filterMap_map]
    exact List.filterMap_congr fun r _ => whole r

variable [FloorRing α]

theorem polls_hear (py : Python α) (reports : List Report) (start stop : Nat)
    (imu : ImuState α) (fresh : imu.controllerBuffer = []) (reads : List (Read α))
    (cut : reads.flatMap Prod.fst = delivered start stop reports) :
    ∃ heading, pollAll py imu reads = .ok (settle
        { imu with controllerBuffer := rest '\n' (deliveredText start stop reports) } heading) ∧
      heading.map Prod.fst =
        ((wholeReports start stop reports).filterMap (Report.parsed py)).getLast? := by
  have plain : Utf8.Ascii (deliveredText start stop reports) := by
    intro c mem
    exact stream_ascii reports c (List.mem_of_mem_take (List.mem_of_mem_drop mem))
  obtain ⟨small, spells⟩ := Utf8.encode_bytes _ plain
  rw [← delivered_encode, ← cut] at small spells
  have text : received imu reads = deliveredText start stop reports := by
    rw [received, fresh, List.nil_append, ← spells, List.map_flatMap]
    apply List.flatMap_congr
    intro read mem
    apply Utf8.decodeIgnoring_small
    intro b inside
    exact small b (List.mem_flatMap.mpr ⟨read, mem, inside⟩)
  obtain ⟨fine, found⟩ := delivered_lines py start stop reports
  rw [← text] at fine
  obtain ⟨lines, texts, done⟩ := pollAll_ok (fun _ => by simp [fresh]) fine
  have last := lastReport_untimed py lines
  rw [texts, text, found] at last
  rw [text] at done
  exact ⟨lastReport py lines, done, last⟩

omit [LinearOrder α] [IsStrictOrderedRing α] [FloorRing α] in
theorem parsed_last (py : Python α) {reports earlier later : List Report} {r : LiveReport}
    (split : reports = earlier ++ .live r :: later) (newest : ∀ r', .live r' ∉ later) :
    (reports.filterMap (Report.parsed py)).getLast? = (Report.live r).parsed py := by
  have silent : later.filterMap (Report.parsed py) = ([] : List (Parsed α)) := by
    rw [List.filterMap_eq_nil_iff]
    intro r' mem
    cases r' with
    | down => rfl
    | live r' => exact absurd mem (newest r')
  rw [split, List.filterMap_append, List.filterMap_cons_some (f := Report.parsed py) rfl, silent,
    List.getLast?_concat]
  rfl

omit [IsStrictOrderedRing α] in
theorem settle_live {py : Python α} {r : LiveReport} {heading : Option (Parsed α × α)}
    (last : heading.map Prod.fst = (Report.live r).parsed py) (imu : ImuState α) :
    (settle imu heading).trackerHeadingDeg = some ((Number.finite r.degrees).modulo 360) ∧
      (settle imu heading).imuValidFlag = true ∧
      (settle imu heading).imuCalibration = calibrationRead py r := by
  obtain ⟨⟨parsed, time⟩, heard, same⟩ := Option.map_eq_some_iff.mp last
  simp only at same
  subst same
  rw [heard]
  exact ⟨rfl, rfl, rfl⟩

/-- Whatever the start and however the bytes are cut into reads: the polls never
    raise, the heading is that of the last live report received whole, and what
    follows the last line feed is kept. -/
theorem last_whole_report_heard (py : Python α) (reports : List Report) (start stop : Nat)
    (imu : ImuState α) (fresh : imu.controllerBuffer = []) (reads : List (Read α))
    (cut : reads.flatMap Prod.fst = delivered start stop reports) :
    ∃ imu', pollAll py imu reads = .ok imu' ∧
      imu'.controllerBuffer = rest '\n' (deliveredText start stop reports) ∧
      (∀ earlier r later, wholeReports start stop reports = earlier ++ .live r :: later →
        (∀ r', .live r' ∉ later) →
          imu'.trackerHeadingDeg = some ((Number.finite r.degrees).modulo 360) ∧
            (.down ∉ later →
              imu'.imuValidFlag = true ∧ imu'.imuCalibration = calibrationRead py r)) ∧
      ((∀ r, .live r ∉ wholeReports start stop reports) →
        imu'.trackerHeadingDeg = imu.trackerHeadingDeg) := by
  obtain ⟨heading, done, last⟩ := polls_hear py reports start stop imu fresh reads cut
  refine ⟨_, done, by rw [settle_buffer], ?_, ?_⟩
  · intro earlier r later split newest
    rw [parsed_last py split newest] at last
    obtain ⟨degrees, flag, calibration⟩ := settle_live last
      { imu with controllerBuffer := rest '\n' (deliveredText start stop reports) }
    exact ⟨degrees, fun _ => ⟨flag, calibration⟩⟩
  · intro none_live
    have silent : (wholeReports start stop reports).filterMap (Report.parsed py) =
        ([] : List (Parsed α)) := by
      rw [List.filterMap_eq_nil_iff]
      intro r mem
      cases r with
      | down => rfl
      | live r => exact absurd mem (none_live r)
    rw [silent] at last
    have unheard : heading = none := by simpa using last
    rw [unheard]
    rfl

end Hearing

/- The firmware's own lines are such reports. -/

section Printing
variable {α : Type} [Field α] [LinearOrder α] [IsStrictOrderedRing α] [FloorRing α]

theorem tenths_bound {y : α} (low : 0 ≤ y) (high : y < 360 + 1 / 20) :
    ⌊(y - ⌊y⌋) * 10⌋.natAbs < 10 ∧ 10 * ⌊y⌋.natAbs + ⌊(y - ⌊y⌋) * 10⌋.natAbs ≤ 3600 := by
  have below := Int.floor_le y
  have above := Int.lt_floor_add_one y
  have whole : 0 ≤ ⌊y⌋ := Int.floor_nonneg.mpr low
  have part : 0 ≤ ⌊(y - ⌊y⌋) * 10⌋ := Int.floor_nonneg.mpr (by linarith)
  have ten : ⌊(y - ⌊y⌋) * 10⌋ < 10 := by
    rw [Int.floor_lt]
    push_cast
    linarith
  have sum : 10 * ⌊y⌋ + ⌊(y - ⌊y⌋) * 10⌋ < 3601 := by
    have digit := Int.floor_le ((y - ⌊y⌋) * 10)
    have bound : ((10 * ⌊y⌋ + ⌊(y - ⌊y⌋) * 10⌋ : Int) : α) < ((3601 : Int) : α) := by
      push_cast
      linarith
    exact_mod_cast bound
  omega

theorem firmware_reports (imuReady : Bool) (turn : Firmware.Turn α) {x : α}
    (sensor : turn.eulerX = .finite x) (low : 0 ≤ x) (high : x < 360) :
    ∃ r : Report, Firmware.reportText imuReady turn = r.line ++ ['\n'] := by
  cases imuReady with
  | false => exact ⟨.down, rfl⟩
  | true =>
    obtain ⟨digit, bounded⟩ := tenths_bound (y := x + 1 / 20) (by linarith) (by linarith)
    generalize whole : ⌊x + 1 / 20⌋.natAbs = w at bounded
    generalize tenth : ⌊(x + 1 / 20 - ⌊x + 1 / 20⌋) * 10⌋.natAbs = d at bounded digit
    have one : natText d = [Nat.digitChar d] := Nat.toDigits_of_lt_base digit
    have value : Nat.ofDigitChars 10 (natText w ++ [Nat.digitChar d]) 0 = 10 * w + d := by
      rw [Nat.ofDigitChars_append, natText_value, Nat.ofDigitChars_cons_digitChar_of_lt_ten digit,
        Nat.ofDigitChars_nil]
    have printed : Firmware.printTenths (.finite x) = natText w ++ '.' :: [Nat.digitChar d] := by
      have small : ¬ 4294967040 < x := by linarith
      simp only [Firmware.printTenths, abs_of_nonneg low, small, not_lt.mpr low, if_false, whole,
        tenth, one]
    refine ⟨.live ⟨natText w, Nat.digitChar d, natText turn.sysCal.toNat, natText_digits w,
      natText_filled w, ?_, natText_digits _, natText_filled _, ?_⟩, ?_⟩
    · rw [Nat.isDigit_digitChar]
      exact decide_eq_true digit
    · rw [value]
      exact bounded
    · rw [Firmware.reportText, if_pos rfl, sensor, printed]
      simp [Report.line, Report.text, LiveReport.headingPart, LiveReport.calibrationPart]

end Printing

/- A run: the host joins within a first report and hears the second one, whose
   bytes arrive in two reads. -/

def sample : LiveReport where
  whole := ['1', '2', '3']
  tenth := '4'
  calibration := ['3']
  whole_digits := by simp [Digits]
  whole_filled := by simp
  tenth_digit := rfl
  calibration_digits := by simp [Digits]
  calibration_filled := by simp
  bounded := by decide

def sampleReads : List (Read ℚ) :=
  [((delivered 3 44 [.live sample, .live sample]).take 30, fun _ => 1),
    ((delivered 3 44 [.live sample, .live sample]).drop 30, fun _ => 2)]

def samplePython : Python ℚ := ⟨fun _ => [], Limits.standard, 900, 65507⟩

def sampleState : ImuState ℚ := { imuLastUpdate := 0 }

theorem second_report_heard :
    ∃ imu', pollAll samplePython sampleState sampleReads = .ok imu' ∧
      imu'.trackerHeadingDeg = some (Number.modulo 360 (.finite (1234 / 10))) ∧
      imu'.imuCalibration = .int 3 := by
  obtain ⟨imu', done, _, heard, _⟩ := last_whole_report_heard samplePython
    [.live sample, .live sample] 3 44 sampleState rfl sampleReads (by decide +kernel)
  obtain ⟨heading, flags⟩ := heard [] sample [] rfl (by simp)
  refine ⟨imu', done, heading, ?_⟩
  rw [(flags (by simp)).2]
  exact calibrationRead_short samplePython sample (by decide)

def longSample (digits : Nat) : LiveReport :=
  { sample with
    calibration := List.replicate (digits + 1) '3'
    calibration_digits := by
      intro c mem
      rw [List.eq_of_mem_replicate mem]
      rfl
    calibration_filled := by simp }

/-- A calibration status one digit longer than int() converts by default. -/
theorem long_status_unread :
    ∃ imu', pollAll samplePython sampleState
        [(delivered 0 5000 [.live (longSample 4300)], fun _ => 1)] = .ok imu' ∧
      wholeReports 0 5000 [.live (longSample 4300)] = [] ++ .live (longSample 4300) :: [] ∧
      imu'.imuCalibration ≠ .int (longSample 4300).sysCal := by
  have length : (longSample 4300).calibration.length = 4301 := List.length_replicate
  have degrees : (longSample 4300).whole.length = 3 := rfl
  have whole : wholeReports 0 5000 [.live (longSample 4300)] =
      [] ++ .live (longSample 4300) :: [] := by
    simp [wholeReports, Report.size, Report.line, Report.text, LiveReport.headingPart,
      LiveReport.calibrationPart, length, degrees]
  have unread : calibrationRead samplePython (longSample 4300) = .null := by
    simp [calibrationRead, samplePython, Limits.standard, fitsDigits, length]
  obtain ⟨heading, done, last⟩ := polls_hear samplePython [.live (longSample 4300)] 0 5000
    sampleState rfl [(delivered 0 5000 [.live (longSample 4300)], fun _ => 1)] (by simp)
  refine ⟨_, done, whole, ?_⟩
  rw [parsed_last samplePython whole (by simp)] at last
  rw [(settle_live last _).2.2, unread]
  intro same
  cases same

end SoqTracker.HeadingReports
