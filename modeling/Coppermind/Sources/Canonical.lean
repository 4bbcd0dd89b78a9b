import Coppermind.Sources.Document
import Coppermind.Notes.Json

/-!
# Canonical days and times

A date is written as JSON by `isoformat`, and what a write makes of that text is the date again,
or the canonical text of the day and time.  From the year 1000 on the canonical text is the one of
`isoformat`; before, where its year is not padded, it is no longer read.
-/

namespace Coppermind.Sources

open Coppermind.Lib Coppermind.Lib.Text Coppermind.Frontmatter Coppermind.Schema
open Coppermind.Notes (twoDigits yearDigits formatNoteTime strValue jsonable)

section Digits

/-- A number of two digits. -/
def pair (n : Nat) : Text := [(n / 10).digitChar, (n % 10).digitChar]

def fourDigits (n : Nat) : Text :=
  [(n / 1000).digitChar, (n / 100 % 10).digitChar, (n / 10 % 10).digitChar, (n % 10).digitChar]

theorem toString_toList (n : Nat) : (toString n).toList = Nat.toDigits 10 n := by
  simp [Nat.repr]

theorem twoDigits_toList {n : Nat} (h : n < 100) : (twoDigits n).toList = pair n := by
  unfold twoDigits
  split
  · next hlt =>
    rw [String.toList_append, toString_toList, Nat.toDigits_of_lt_base (by omega)]
    simp [pair, Nat.div_eq_of_lt hlt, Nat.mod_eq_of_lt hlt]
  · next hle =>
    rw [toString_toList, Nat.toDigits_of_base_le (by decide) (by omega), Nat.toDigits_of_lt_base (by omega)]
    rfl

theorem toDigits_year {n : Nat} (hle : 1000 ≤ n) (h : n < 10000) :
    Nat.toDigits 10 n = fourDigits n := by
  rw [Nat.toDigits_of_base_le (by decide) (by omega), Nat.toDigits_of_base_le (by decide) (by omega),
    Nat.toDigits_of_base_le (by decide) (by omega), Nat.toDigits_of_lt_base (by omega), fourDigits]
  simp [Nat.div_div_eq_div_mul]

theorem padded_year {n : Nat} (h : n < 10000) :
    List.replicate (4 - (toString n).length) '0' ++ (toString n).toList = fourDigits n := by
  rw [← String.length_toList, toString_toList]
  by_cases h3 : 1000 ≤ n
  · rw [toDigits_year h3 h]; simp [fourDigits]
  have hthousands : n / 1000 = 0 := by omega
  by_cases h2 : 100 ≤ n
  · have hhundreds : n / 100 % 10 = n / 100 := by omega
    rw [Nat.toDigits_of_base_le (by decide) (by omega), Nat.toDigits_of_base_le (by decide) (by omega),
      Nat.toDigits_of_lt_base (by omega), fourDigits, hthousands, hhundreds, Nat.div_div_eq_div_mul]
    rfl
  have hhundreds : n / 100 = 0 := by omega
  by_cases h1 : 10 ≤ n
  · have htens : n / 10 % 10 = n / 10 := by omega
    rw [Nat.toDigits_of_base_le (by decide) (by omega), Nat.toDigits_of_lt_base (by omega), fourDigits,
      hthousands, hhundreds, htens]
    rfl
  · have htens : n / 10 = 0 := by omega
    have hunits : n % 10 = n := by omega
    rw [Nat.toDigits_of_lt_base (by omega), fourDigits, hthousands, hhundreds, htens, hunits]
    rfl

theorem digit?_digitChar : ∀ n < 10, digit? (Nat.digitChar n) = some n := by decide

theorem digits?_pair {n : Nat} (h : n < 100) (t : Text) : digits? 2 0 (pair n ++ t) = some (n, t) := by
  simp [pair, digits?, digit?_digitChar (n / 10) (by omega), digit?_digitChar (n % 10) (by omega)]
  omega

theorem digits?_year {n : Nat} (h : n < 10000) (t : Text) :
    digits? 4 0 (fourDigits n ++ t) = some (n, t) := by
  simp [fourDigits, digits?, digit?_digitChar (n / 1000) (by omega), digit?_digitChar (n / 100 % 10) (by omega),
    digit?_digitChar (n / 10 % 10) (by omega), digit?_digitChar (n % 10) (by omega)]
  omega

end Digits

section Texts

/-- A day as `YYYY-MM-DD`. -/
def dayText (d : Date) : Text := fourDigits d.year ++ '-' :: (pair d.month ++ '-' :: pair d.day)

/-- A time of day as `HH:MM:SS`. -/
def clockText (d : DateTime) : Text := pair d.hour ++ ':' :: (pair d.minute ++ ':' :: pair d.second)

/-- The fraction of a second in `isoformat`. -/
def fraction (micro : Nat) : Text :=
  if micro = 0 then []
  else '.' :: (List.replicate (6 - (toString micro).length) '0' ++ (toString micro).toList)

/-- `isoformat` of a date and time without an offset. -/
def isoDatetime (d : DateTime) : Text :=
  isoDate d.date ++ 'T' :: ((twoDigits d.hour ++ ":" ++ twoDigits d.minute ++ ":" ++
    twoDigits d.second).toList ++ fraction d.microsecond)

theorem bounds_of_isReal {d : Date} (h : d.isReal = true) :
    d.year < 10000 ∧ d.month < 100 ∧ d.day < 100 := by
  simp only [Date.isReal, Date.make?, beq_iff_eq, Option.ite_none_right_eq_some] at h
  obtain ⟨⟨-, hyear, -, hmonth, -, hday⟩, -⟩ := h
  have hdays : daysIn d.year d.month ≤ 31 := by
    unfold daysIn
    split
    · split <;> omega
    · split <;> omega
  omega

theorem clock_of_isReal {d : DateTime} (h : d.isReal = true) :
    d.date.isReal = true ∧ d.hour < 24 ∧ d.minute < 60 ∧ d.second < 60 := by
  simp only [DateTime.isReal, Bool.and_eq_true, decide_eq_true_eq] at h
  tauto

theorem isoDate_eq {d : Date} (h : d.isReal = true) : isoDate d = dayText d := by
  obtain ⟨hyear, hmonth, hday⟩ := bounds_of_isReal h
  unfold isoDate dayText
  simp only [String.toList_append, String.toList_ofList, twoDigits_toList hmonth,
    twoDigits_toList hday, padded_year hyear]
  simp

theorem isoDatetime_eq {d : DateTime} (h : d.isReal = true) :
    isoDatetime d = dayText d.date ++ 'T' :: (clockText d ++ fraction d.microsecond) := by
  obtain ⟨hdate, hhour, hminute, hsecond⟩ := clock_of_isReal h
  unfold isoDatetime clockText
  simp only [isoDate_eq hdate, String.toList_append, twoDigits_toList (show d.hour < 100 by omega),
    twoDigits_toList (show d.minute < 100 by omega), twoDigits_toList (show d.second < 100 by omega)]
  simp

/-- The year is written in four digits. -/
def FullYear (pads : Bool) (d : DateTime) : Prop := pads = true ∨ 1000 ≤ d.date.year

theorem yearDigits_full {pads : Bool} {d : DateTime} (hyear : FullYear pads d)
    (h : d.date.year < 10000) : (yearDigits pads d.date.year).toList = fourDigits d.date.year := by
  unfold yearDigits
  cases pads with
  | true =>
    rw [if_pos rfl, String.toList_append, String.toList_ofList, padded_year h]
  | false =>
    obtain hpads | hyear := hyear
    · cases hpads
    · rw [if_neg Bool.false_ne_true, toString_toList, toDigits_year hyear h]

theorem formatNoteTime_eq {pads : Bool} {d : DateTime} (h : d.isReal = true) :
    formatNoteTime pads d = (yearDigits pads d.date.year).toList ++
      '-' :: (pair d.date.month ++ '-' :: (pair d.date.day ++ 'T' :: clockText d)) := by
  obtain ⟨hdate, hhour, hminute, hsecond⟩ := clock_of_isReal h
  obtain ⟨hyear, hmonth, hday⟩ := bounds_of_isReal hdate
  unfold formatNoteTime clockText
  simp only [String.toList_append, twoDigits_toList (show d.hour < 100 by omega),
    twoDigits_toList (show d.minute < 100 by omega), twoDigits_toList (show d.second < 100 by omega),
    twoDigits_toList hmonth, twoDigits_toList hday]
  simp

/-- With its year in four digits, the canonical text is the one of `isoformat`. -/
theorem formatNoteTime_full {pads : Bool} {d : DateTime} (h : d.isReal = true)
    (hyear : FullYear pads d) (hwhole : d.microsecond = 0) :
    formatNoteTime pads d = isoDatetime d := by
  rw [formatNoteTime_eq h, isoDatetime_eq h, yearDigits_full hyear
    (bounds_of_isReal (clock_of_isReal h).1).1, hwhole]
  simp [dayText, fraction]

theorem isSpace_digitChar : ∀ n < 10, isSpace (Nat.digitChar n) = false := by decide

theorem digitChar_ne : ∀ n < 10, Nat.digitChar n ≠ 'Z' ∧ Nat.digitChar n ≠ 'z' ∧ Nat.digitChar n ≠ '-' ∧ Nat.digitChar n ≠ 'T' := by decide

theorem strip_of_ends {a b : Char} {t : Text} (ha : isSpace a = false) (hb : isSpace b = false) :
    strip (a :: (t ++ [b])) = a :: (t ++ [b]) := by
  rw [strip, List.dropWhile_cons, if_neg (by simp [ha]), ← List.cons_append, List.rdropWhile_concat,
    if_neg (by simp [hb])]

theorem dayText_cons (d : Date) : ∃ t, dayText d =
    (d.year / 1000).digitChar :: (t ++ [(d.day % 10).digitChar]) := by
  refine ⟨[(d.year / 100 % 10).digitChar, (d.year / 10 % 10).digitChar, (d.year % 10).digitChar] ++ '-' ::
    (pair d.month ++ '-' :: [(d.day / 10).digitChar]), ?_⟩
  simp [dayText, fourDigits, pair]

variable {py : Python}

theorem isClock_text {d : DateTime} (h : d.isReal = true) (t : Text) :
    isClock (clockText d ++ t) = t.isEmpty := by
  obtain ⟨-, hhour, hminute, hsecond⟩ := clock_of_isReal h
  unfold isClock clockText
  simp only [List.append_assoc, List.cons_append, digits?_pair (show d.hour < 100 by omega),
    digits?_pair (show d.minute < 100 by omega), digits?_pair (show d.second < 100 by omega)]
  cases t <;> rfl

theorem isLocalDatetime_iso {d : DateTime} (h : d.isReal = true) :
    isLocalDatetime (isoDatetime d) = decide (d.microsecond = 0) := by
  obtain ⟨hdate, -⟩ := clock_of_isReal h
  obtain ⟨hyear, hmonth, hday⟩ := bounds_of_isReal hdate
  rw [isoDatetime_eq h]
  unfold isLocalDatetime dayText
  simp only [List.append_assoc, List.cons_append, digits?_year hyear, digits?_pair hmonth,
    digits?_pair hday, isClock_text h]
  unfold fraction
  split <;> simp_all

theorem isSpace_of_isDigit {c : Char} (h : c.isDigit = true) : isSpace c = false := by
  simp only [Char.isDigit, Bool.and_eq_true, decide_eq_true_eq, ge_iff_le] at h
  have hlow : 48 ≤ c.toNat := h.1
  have hhigh : c.toNat ≤ 57 := h.2
  simp only [isSpace, List.mem_cons, List.not_mem_nil, or_false, decide_eq_false_iff_not, not_or]
  omega

/-- A text of `isoformat` starts and ends with a digit. -/
theorem isoDatetime_ends {d : DateTime} (h : d.isReal = true) :
    ∃ a t b, isoDatetime d = a :: (t ++ [b]) ∧ isSpace a = false ∧ isSpace b = false ∧
      b ≠ 'Z' ∧ b ≠ 'z' := by
  obtain ⟨hdate, hhour, hminute, hsecond⟩ := clock_of_isReal h
  obtain ⟨hyear, hmonth, hday⟩ := bounds_of_isReal hdate
  have hfirst := isSpace_digitChar (d.date.year / 1000) (by omega)
  rw [isoDatetime_eq h]
  by_cases hmicro : d.microsecond = 0
  · refine ⟨_, (fourDigits d.date.year).tail ++ ('-' :: (pair d.date.month ++ '-' ::
      (pair d.date.day ++ 'T' :: (pair d.hour ++ ':' :: (pair d.minute ++ ':' ::
        [(d.second / 10).digitChar]))))), (d.second % 10).digitChar, ?_, hfirst,
      isSpace_digitChar _ (by omega), (digitChar_ne _ (by omega)).1, (digitChar_ne _ (by omega)).2.1⟩
    rw [hmicro]
    simp [dayText, clockText, fraction, fourDigits, pair]
  · obtain ⟨t, b, htb⟩ : ∃ t b, Nat.toDigits 10 d.microsecond = t ++ [b] := by
      have hne : Nat.toDigits 10 d.microsecond ≠ [] :=
        List.length_pos_iff.1 Nat.length_toDigits_pos
      exact ⟨_, _, (List.dropLast_append_getLast hne).symm⟩
    have hdigit : b.isDigit = true :=
      Nat.isDigit_of_mem_toDigits (b := 10) (by decide) (by decide) (n := d.microsecond) (by simp [htb])
    refine ⟨_, (fourDigits d.date.year).tail ++ ('-' :: (pair d.date.month ++ '-' ::
      (pair d.date.day ++ 'T' :: (clockText d ++ '.' ::
        (List.replicate (6 - (toString d.microsecond).length) '0' ++ t))))), b, ?_, hfirst,
      isSpace_of_isDigit hdigit, ?_, ?_⟩
    · rw [fraction, if_neg hmicro, toString_toList, htb]
      simp [dayText, fourDigits]
    · rintro rfl
      exact absurd hdigit (by decide)
    · rintro rfl
      exact absurd hdigit (by decide)

theorem endsInZ_of_last {a b : Char} {t : Text} (hZ : b ≠ 'Z') (hz : b ≠ 'z') :
    endsInZ (a :: (t ++ [b])) = false := by
  rw [endsInZ, ← List.cons_append, List.getLast?_concat]
  simp [hZ, hz]

/-- One with a fraction of a second is not read. -/
theorem parse_fraction {d : DateTime} (h : d.isReal = true) (hmicro : d.microsecond ≠ 0) :
    (parseNoteTimeText py (isoDatetime d)).valid = false := by
  have hlocal : isLocalDatetime (isoDatetime d) = false := by
    rw [isLocalDatetime_iso h, decide_eq_false hmicro]
  obtain ⟨a, t, b, htext, ha, hb, hZ, hz⟩ := isoDatetime_ends h
  have hstrip : strip (isoDatetime d) = isoDatetime d := by
    rw [htext]
    exact strip_of_ends ha hb
  have hlength : 10 < (isoDatetime d).length := by
    rw [isoDatetime_eq h]
    simp [dayText, clockText, fourDigits, pair]
  have hne : isoDatetime d ≠ [] := by
    rw [htext]
    simp
  have hdashed : dashed (isoDatetime d) = true := by
    rw [isoDatetime_eq h]
    rfl
  have hchar : charAt? (isoDatetime d) 10 = some 'T' := by
    rw [isoDatetime_eq h]
    rfl
  unfold parseNoteTimeText
  simp only [hstrip, hne, hlength, hlength.ne', hdashed, hchar, false_and, true_and, true_or, if_false, if_true,
    hlocal, Bool.false_eq_true]
  split
  · rfl
  · split <;> rfl

theorem toDigits_short {n : Nat} (h : n < 1000) :
    (n < 10 ∧ Nat.toDigits 10 n = [n.digitChar]) ∨
    (n < 100 ∧ Nat.toDigits 10 n = [(n / 10).digitChar, (n % 10).digitChar]) ∨
    (n < 1000 ∧ Nat.toDigits 10 n = [(n / 100).digitChar, (n / 10 % 10).digitChar, (n % 10).digitChar]) := by
  by_cases h1 : n < 10
  · exact Or.inl ⟨h1, Nat.toDigits_of_lt_base h1⟩
  by_cases h2 : n < 100
  · refine Or.inr (Or.inl ⟨h2, ?_⟩)
    rw [Nat.toDigits_of_base_le (by decide) (by omega), Nat.toDigits_of_lt_base (by omega)]
    rfl
  · refine Or.inr (Or.inr ⟨h, ?_⟩)
    rw [Nat.toDigits_of_base_le (by decide) (by omega), Nat.toDigits_of_base_le (by decide) (by omega),
      Nat.toDigits_of_lt_base (by omega), Nat.div_div_eq_div_mul]
    rfl

/-- A year of less than four digits that is not padded is no longer read as one. -/
theorem formatNoteTime_short {pads : Bool} {d : DateTime} (h : d.isReal = true)
    (hshort : ¬FullYear pads d) : strip (formatNoteTime pads d) = formatNoteTime pads d ∧
      dashed (formatNoteTime pads d) = false ∧ localDatetime? (formatNoteTime pads d) = none := by
  obtain ⟨hpads, hyear⟩ := not_or.1 hshort
  obtain rfl := Bool.eq_false_iff.2 hpads
  replace hyear := Nat.lt_of_not_le hyear
  obtain ⟨hdate, hhour, hminute, hsecond⟩ := clock_of_isReal h
  obtain ⟨-, hmonth, hday⟩ := bounds_of_isReal hdate
  have hdigit : digit? '-' = none := by decide
  have hlast := isSpace_digitChar (d.second % 10) (by omega)
  have hmonth' := (digitChar_ne (d.date.month / 10) (by omega)).2.2.1
  have hmonth'' := (digitChar_ne (d.date.month % 10) (by omega)).2.2.1
  rw [formatNoteTime_eq h, yearDigits, if_neg Bool.false_ne_true, toString_toList]
  obtain ⟨hlt, hdigits⟩ | ⟨hlt, hdigits⟩ | ⟨hlt, hdigits⟩ := toDigits_short hyear
  · have hfirst := isSpace_digitChar d.date.year hlt
    rw [hdigits]
    refine ⟨?_, ?_, ?_⟩
    · exact strip_of_ends (t := '-' :: (pair d.date.month ++ '-' :: (pair d.date.day ++
        'T' :: (pair d.hour ++ ':' :: (pair d.minute ++ ':' :: [(d.second / 10).digitChar])))))
        hfirst hlast
    · simp [dashed, charAt?, pair]
    · simp [localDatetime?, digits?, digit?_digitChar _ hlt, hdigit]
  · have hfirst := isSpace_digitChar (d.date.year / 10) (by omega)
    rw [hdigits]
    refine ⟨?_, ?_, ?_⟩
    · exact strip_of_ends (t := (d.date.year % 10).digitChar :: '-' :: (pair d.date.month ++ '-' ::
        (pair d.date.day ++ 'T' :: (pair d.hour ++ ':' :: (pair d.minute ++ ':' ::
          [(d.second / 10).digitChar]))))) hfirst hlast
    · simp [dashed, charAt?, pair, hmonth'']
    · simp [localDatetime?, digits?, digit?_digitChar (d.date.year / 10) (by omega),
        digit?_digitChar (d.date.year % 10) (by omega), hdigit]
  · have hfirst := isSpace_digitChar (d.date.year / 100) (by omega)
    rw [hdigits]
    refine ⟨?_, ?_, ?_⟩
    · exact strip_of_ends (t := (d.date.year / 10 % 10).digitChar :: (d.date.year % 10).digitChar ::
        '-' :: (pair d.date.month ++ '-' :: (pair d.date.day ++ 'T' :: (pair d.hour ++ ':' ::
          (pair d.minute ++ ':' :: [(d.second / 10).digitChar]))))) hfirst hlast
    · simp [dashed, charAt?, pair, hmonth']
    · simp [localDatetime?, digits?, digit?_digitChar (d.date.year / 100) (by omega),
        digit?_digitChar (d.date.year / 10 % 10) (by omega),
        digit?_digitChar (d.date.year % 10) (by omega), hdigit]

theorem parse_short {pads : Bool} {d : DateTime} (h : d.isReal = true)
    (hshort : ¬FullYear pads d) :
    (parseNoteTimeText py (formatNoteTime pads d)).dateValue = none := by
  obtain ⟨hstrip, hdashed, -⟩ := formatNoteTime_short h hshort
  unfold parseNoteTimeText
  simp only [hstrip, hdashed, Bool.false_eq_true, and_false, if_false, false_and]
  split
  · rfl
  · split
    · rfl
    · split
      · rfl
      · split <;> rfl

theorem localDatetime?_iso {d : DateTime} (h : d.isReal = true) (hwhole : d.microsecond = 0) :
    localDatetime? (strip (isoDatetime d)) =
      some (d.date.year, d.date.month, d.date.day, d.hour, d.minute, d.second) := by
  obtain ⟨hdate, hhour, hminute, hsecond⟩ := clock_of_isReal h
  obtain ⟨hyear, hmonth, hday⟩ := bounds_of_isReal hdate
  obtain ⟨a, t, b, htext, ha, hb, -, -⟩ := isoDatetime_ends h
  have hstrip : strip (isoDatetime d) = isoDatetime d := by
    rw [htext]
    exact strip_of_ends ha hb
  have hrest := digits?_pair (show d.second < 100 by omega) []
  rw [List.append_nil] at hrest
  rw [hstrip, isoDatetime_eq h, hwhole]
  simp [localDatetime?, dayText, clockText, fraction, digits?_year hyear, digits?_pair hmonth,
    digits?_pair hday, digits?_pair (show d.hour < 100 by omega),
    digits?_pair (show d.minute < 100 by omega), hrest, char?]

theorem make?_of_isReal {d : DateTime} (h : d.isReal = true) (hnaive : d.tzinfo = none)
    (hwhole : d.microsecond = 0) :
    DateTime.make? d.date.year d.date.month d.date.day d.hour d.minute d.second = some d := by
  obtain ⟨hdate, hhour, hminute, hsecond⟩ := clock_of_isReal h
  have hmake : Date.make? d.date.year d.date.month d.date.day = some d.date := by
    simpa [Date.isReal] using hdate
  obtain ⟨date, hour, minute, second, microsecond, tzinfo⟩ := d
  dsimp only at *
  subst hnaive hwhole
  simp [DateTime.make?, hmake, hhour, hminute, hsecond]

theorem isReal_of_make? {y m day h mi s : Nat} {d : DateTime}
    (hd : DateTime.make? y m day h mi s = some d) :
    d.isReal = true ∧ d.tzinfo = none ∧ d.microsecond = 0 := by
  unfold DateTime.make? at hd
  simp only [Option.bind_eq_bind, Option.bind_eq_some_iff, Option.ite_none_right_eq_some,
    Option.some.injEq] at hd
  obtain ⟨date, hdate, ⟨hh, hmi, hs⟩, rfl⟩ := hd
  have hreal : date.isReal = true := by
    unfold Date.make? at hdate
    split at hdate
    · next hbounds =>
      obtain rfl := Option.some.inj hdate
      simp [Date.isReal, Date.make?, hbounds]
    · cases hdate
  simp [DateTime.isReal, hreal, hh, hmi, hs]

end Texts

section Reading

/-- What the library writes a date as, and what it reads of such a text. -/
structure IsoTexts (py : Python) : Prop where
  isoformat_date : ∀ d : Date, d.isReal = true → py.isoformat (.date d) = PyStr.ofText (isoDate d)
  isoformat_timestamp : ∀ d : DateTime, d.isReal = true → d.tzinfo = none →
    py.isoformat (.timestamp d) = PyStr.ofText (isoDatetime d)
  reads_date : ∀ d : Date, d.isReal = true → py.dateFromIso (isoDate d) = some d
  reads_datetime : ∀ d : DateTime, d.isReal = true → d.tzinfo = none → d.microsecond = 0 →
    py.datetimeFromIso (isoDatetime d) = some d
  date_isReal : ∀ t d, py.dateFromIso t = some d → d.isReal = true
  datetime_isReal : ∀ t d, py.datetimeFromIso t = some d → d.isReal = true

variable {py : Python} (hpy : IsoTexts py)

include hpy

theorem parse_isoDate {d : Date} (h : d.isReal = true) :
    parseNoteTimeText py (isoDate d) = { present := true, valid := true, dateValue := some d } := by
  have hread := hpy.reads_date d h
  rw [isoDate_eq h] at hread ⊢
  obtain ⟨hyear, hmonth, hday⟩ := bounds_of_isReal h
  have hstrip : strip (dayText d) = dayText d := by
    obtain ⟨t, ht⟩ := dayText_cons d
    rw [ht]
    exact strip_of_ends (isSpace_digitChar _ (by omega)) (isSpace_digitChar _ (by omega))
  have hlength : (dayText d).length = 10 := rfl
  have hdashed : dashed (dayText d) = true := rfl
  have hne : dayText d ≠ [] := by simp [dayText, fourDigits]
  unfold parseNoteTimeText
  simp [hstrip, hne, hlength, hdashed, parseDateText, hread]

/-- A date and time with whole seconds is read as itself. -/
theorem parse_isoDatetime {d : DateTime} (h : d.isReal = true) (hnaive : d.tzinfo = none)
    (hwhole : d.microsecond = 0) :
    parseNoteTimeText py (isoDatetime d) =
      { present := true, valid := true, dateValue := some d.date
        timeValue := some (wholeSeconds d) } := by
  have hread := hpy.reads_datetime d h hnaive hwhole
  have hlocal : isLocalDatetime (isoDatetime d) = true := by
    rw [isLocalDatetime_iso h, decide_eq_true hwhole]
  obtain ⟨a, t, b, htext, ha, hb, hZ, hz⟩ := isoDatetime_ends h
  have hstrip : strip (isoDatetime d) = isoDatetime d := by
    rw [htext]
    exact strip_of_ends ha hb
  have hends : endsInZ (isoDatetime d) = false := by
    rw [htext]
    exact endsInZ_of_last hZ hz
  have hlength : (isoDatetime d).length = 19 := by
    rw [isoDatetime_eq h, hwhole]
    rfl
  have hne : isoDatetime d ≠ [] := by
    rw [htext]
    simp
  have hdashed : dashed (isoDatetime d) = true := by
    rw [isoDatetime_eq h]
    rfl
  have hchar : charAt? (isoDatetime d) 10 = some 'T' := by
    rw [isoDatetime_eq h]
    rfl
  unfold parseNoteTimeText
  simp [hstrip, hne, hlength, hdashed, hchar, hread, hnaive, hends, hlocal]

end Reading

section Values

variable {py : Python} {d : DateTime} {t : Text}

theorem parseNoteTime_str (t : Text) : parseNoteTime py (some (.str t)) = parseNoteTimeText py t := rfl

/-- A text that is not read as a day stays as it is. -/
theorem dateValue_unread (h : (parseNoteTimeText py t).valid = false ∨
    (parseNoteTimeText py t).dateValue = none) : dateValue py (.str t) = .str t := by
  unfold dateValue
  rw [parseNoteTime_str]
  dsimp only
  obtain h | h := h
  · rw [if_pos (by simp [h])]
  · split
    · rfl
    · rw [h]

theorem dateValue_fraction (h : d.isReal = true) (hmicro : d.microsecond ≠ 0) :
    dateValue py (.str (isoDatetime d)) = .str (isoDatetime d) :=
  dateValue_unread (Or.inl (parse_fraction h hmicro))

/-- A canonical text is only read with a year in four digits. -/
theorem fullYear_of_isDate {pads : Bool} (h : d.isReal = true)
    (hdate : isDate py (.str (formatNoteTime pads d)) = true) : FullYear pads d := by
  by_contra hshort
  unfold isDate at hdate
  dsimp only at hdate
  rw [parseNoteTime_str, parse_short h hshort] at hdate
  simp at hdate

variable (hpy : IsoTexts py)

include hpy

theorem dateValue_isoDate {day : Date} (h : day.isReal = true) :
    dateValue py (.str (isoDate day)) = .date day := by
  unfold dateValue
  rw [parseNoteTime_str, parse_isoDate hpy h]
  rfl

theorem dateValue_isoDatetime (h : d.isReal = true) (hnaive : d.tzinfo = none)
    (hwhole : d.microsecond = 0) :
    dateValue py (.str (isoDatetime d)) = .str (formatNoteTime py.padsYears d) := by
  have hcombine : combine d.date (wholeSeconds d) = d := by
    obtain ⟨date, hour, minute, second, microsecond, tzinfo⟩ := d
    dsimp only at hnaive hwhole
    subst hnaive hwhole
    rfl
  unfold dateValue
  rw [parseNoteTime_str, parse_isoDatetime hpy h hnaive hwhole]
  dsimp only
  rw [hcombine]
  rfl

/-- What a text is read as exists. -/
theorem real_of_parse {day : Date} (hday : (parseNoteTimeText py t).dateValue = some day) :
    day.isReal = true ∧ ∀ clock, (parseNoteTimeText py t).timeValue = some clock →
      (combine day clock).isReal = true ∧ clock.microsecond = 0 := by
  have hdatetime : ∀ parsed : DateTime, py.datetimeFromIso (strip t) = some parsed →
      parsed.date.isReal = true ∧ (combine parsed.date (wholeSeconds parsed)).isReal = true := by
    intro parsed hparsed
    have hreal := hpy.datetime_isReal _ _ hparsed
    obtain ⟨hdate, hhour, hminute, hsecond⟩ := clock_of_isReal hreal
    exact ⟨hdate, by simp [DateTime.isReal, combine, wholeSeconds, hdate, hhour, hminute, hsecond]⟩
  unfold parseNoteTimeText at hday ⊢
  dsimp only at hday ⊢
  split at hday
  · cases hday
  · next hne =>
    rw [if_neg hne]
    split at hday
    · next hten =>
      rw [if_pos hten]
      dsimp only at hday
      unfold parseDateText at hday
      split at hday
      · cases hday
      · exact ⟨hpy.date_isReal _ _ hday, by simp⟩
    · next hten =>
      rw [if_neg hten]
      split at hday
      · next hlong =>
        rw [if_pos hlong]
        cases hparsed : py.datetimeFromIso (strip t) with
        | none =>
          rw [hparsed] at hday
          cases hday
        | some parsed =>
          obtain ⟨hdate, hcombined⟩ := hdatetime parsed hparsed
          rw [hparsed] at hday
          dsimp only at hday ⊢
          split at hday
          · next hoffset =>
            obtain rfl := Option.some.inj hday
            rw [if_pos hoffset]
            refine ⟨hdate, fun clock hclock => ?_⟩
            obtain rfl := Option.some.inj hclock
            exact ⟨hcombined, rfl⟩
          · next hoffset =>
            rw [if_neg hoffset]
            split at hday
            · next hlocal =>
              obtain rfl := Option.some.inj hday
              rw [if_pos hlocal]
              refine ⟨hdate, fun clock hclock => ?_⟩
              obtain rfl := Option.some.inj hclock
              exact ⟨hcombined, rfl⟩
            · cases hday
      · split at hday
        · cases hday
        · split at hday
          · cases hday
          · split at hday <;> cases hday

/-- **Dates**: what is made of a text under a date's key: the text, where no day is read of it, or
the day, or the text of the day and time. -/
theorem dateValue_cases (t : Text) :
    ((parseNoteTimeText py t).valid = false ∨ (parseNoteTimeText py t).dateValue = none) ∧
        dateValue py (.str t) = .str t ∨
      (∃ day : Date, day.isReal = true ∧ dateValue py (.str t) = .date day) ∨
      ∃ d : DateTime, d.isReal = true ∧ d.tzinfo = none ∧ d.microsecond = 0 ∧
        dateValue py (.str t) = .str (formatNoteTime py.padsYears d) := by
  cases hvalid : (parseNoteTimeText py t).valid with
  | false => exact Or.inl ⟨Or.inl rfl, dateValue_unread (Or.inl hvalid)⟩
  | true =>
    cases hday : (parseNoteTimeText py t).dateValue with
    | none => exact Or.inl ⟨Or.inr rfl, dateValue_unread (Or.inr hday)⟩
    | some day =>
      obtain ⟨hreal, hcombined⟩ := real_of_parse hpy hday
      have hvalue : dateValue py (.str t) =
          (parseNoteTimeText py t).timeValue.elim (.date day) fun clock =>
            .str (formatNoteTime py.padsYears (combine day clock)) := by
        unfold dateValue
        rw [parseNoteTime_str]
        dsimp only
        rw [if_neg (by simp [hvalid]), hday]
        cases (parseNoteTimeText py t).timeValue <;> rfl
      cases hclock : (parseNoteTimeText py t).timeValue with
      | none => exact Or.inr (Or.inl ⟨day, hreal, by rw [hvalue, hclock, Option.elim_none]⟩)
      | some clock =>
        obtain ⟨hwhole, hmicro⟩ := hcombined clock hclock
        rw [hclock, Option.elim_some] at hvalue
        exact Or.inr (Or.inr ⟨combine day clock, hwhole, rfl, hmicro, hvalue⟩)

/-- What a text is read as, where a date is made of it. -/
theorem dateValue_of_isDate (h : isDate py (dateValue py (.str t)) = true) :
    (∃ day : Date, day.isReal = true ∧ dateValue py (.str t) = .date day) ∨
      ∃ d : DateTime, d.isReal = true ∧ d.tzinfo = none ∧ d.microsecond = 0 ∧
        FullYear py.padsYears d ∧ dateValue py (.str t) = .str (formatNoteTime py.padsYears d) := by
  obtain ⟨hunread, hself⟩ | hday | ⟨d, hreal, hnaive, hwhole, hvalue⟩ := dateValue_cases hpy t
  · rw [hself, isDate, parseNoteTime_str] at h
    obtain hunread | hunread := hunread <;> simp [hunread] at h
  · exact Or.inl hday
  · rw [hvalue] at h
    exact Or.inr ⟨d, hreal, hnaive, hwhole, fullYear_of_isDate hreal h, hvalue⟩

end Values

section Unquoted

variable {t : Text} {d : DateTime}

theorem digits?_chars {n value number : Nat} {rest : Text}
    (h : digits? n value t = some (number, rest)) :
    t.length = n + rest.length ∧ ('\x00' ∈ t → '\x00' ∈ rest) := by
  induction n generalizing t value with
  | zero =>
    obtain ⟨-, rfl⟩ := Prod.mk.inj (Option.some.inj h)
    exact ⟨(Nat.zero_add _).symm, id⟩
  | succ n ih =>
    cases t with
    | nil => cases h
    | cons c t =>
      rw [digits?] at h
      obtain ⟨digit, hdigit, h⟩ := Option.bind_eq_some_iff.1 h
      obtain ⟨hlength, hnul⟩ := ih h
      refine ⟨by simp only [List.length_cons]; omega, fun hmem => ?_⟩
      obtain rfl | hmem := List.mem_cons.1 hmem
      · rw [show digit? '\x00' = none by decide] at hdigit
        cases hdigit
      · exact hnul hmem

theorem digits?_suffix {n value number : Nat} {rest : Text}
    (h : digits? n value t = some (number, rest)) : rest <:+ t := by
  induction n generalizing t value with
  | zero =>
    obtain ⟨-, rfl⟩ := Prod.mk.inj (Option.some.inj h)
    exact List.suffix_rfl
  | succ n ih =>
    cases t with
    | nil => cases h
    | cons c t =>
      rw [digits?] at h
      obtain ⟨digit, -, h⟩ := Option.bind_eq_some_iff.1 h
      exact (ih h).trans (List.suffix_cons c t)

theorem char?_chars {c : Char} {rest : Text} (h : char? c t = some rest) : t = c :: rest := by
  cases t with
  | nil => cases h
  | cons e t =>
    rw [char?] at h
    split at h
    · next heq => rw [heq, Option.some.inj h]
    · cases h

/-- A local date and time is longer than a day, and holds no NUL. -/
theorem localDatetime?_chars {numbers : Nat × Nat × Nat × Nat × Nat × Nat}
    (h : localDatetime? t = some numbers) : 16 ≤ t.length ∧ '\x00' ∉ t := by
  unfold localDatetime? at h
  simp only [Option.bind_eq_bind, Option.bind_eq_some_iff] at h
  obtain ⟨⟨year, t1⟩, h1, t1', hd1, ⟨month, t2⟩, h2, t2', hd2, ⟨day, t3⟩, h3, t3', hd3,
    ⟨hour, t4⟩, h4, t4', hd4, ⟨minute, t5⟩, h5, h⟩ := h
  obtain ⟨l1, n1⟩ := digits?_chars h1
  obtain ⟨l2, n2⟩ := digits?_chars h2
  obtain ⟨l3, n3⟩ := digits?_chars h3
  obtain ⟨l4, n4⟩ := digits?_chars h4
  obtain ⟨l5, n5⟩ := digits?_chars h5
  obtain rfl := char?_chars hd1
  obtain rfl := char?_chars hd2
  obtain rfl := char?_chars hd3
  obtain rfl := char?_chars hd4
  simp only [List.length_cons] at l1 l2 l3 l4
  have hrest : '\x00' ∉ t5 := by
    dsimp only at h
    cases t5 with
    | nil => simp
    | cons c rest =>
      dsimp only at h
      obtain ⟨t5', hd5, h⟩ := Option.bind_eq_some_iff.1 h
      obtain ⟨⟨second, t6⟩, h6, h⟩ := Option.bind_eq_some_iff.1 h
      dsimp only at h
      split at h
      · next hnil =>
        subst hnil
        rw [char?_chars hd5]
        intro hmem
        obtain hmem | hmem := List.mem_cons.1 hmem
        · exact absurd hmem (by decide)
        · cases (digits?_chars h6).2 hmem
      · cases h
  refine ⟨by omega, fun hmem => hrest (n5 ?_)⟩
  have hcons : ∀ (c : Char) (l : Text), c ≠ '\x00' → '\x00' ∈ c :: l → '\x00' ∈ l := by
    intro c l hne hmem
    exact (List.mem_cons.1 hmem).resolve_left (Ne.symm hne)
  exact hcons _ _ (by decide) (n4 (hcons _ _ (by decide) (n3 (hcons _ _ (by decide)
    (n2 (hcons _ _ (by decide) (n1 hmem)))))))

/-- A local date and time has a dash. -/
theorem localDatetime?_dash {numbers : Nat × Nat × Nat × Nat × Nat × Nat}
    (h : localDatetime? t = some numbers) : '-' ∈ t := by
  unfold localDatetime? at h
  simp only [Option.bind_eq_bind, Option.bind_eq_some_iff] at h
  obtain ⟨⟨year, rest⟩, hyear, rest', hdash, -⟩ := h
  obtain rfl := char?_chars hdash
  exact (digits?_suffix hyear).subset List.mem_cons_self

theorem mem_strip {c : Char} (hc : isSpace c = false) (hmem : c ∈ t) : c ∈ strip t := by
  have hdrop : ∀ s : Text, c ∈ s → c ∈ s.dropWhile isSpace := by
    intro s hs
    rw [← List.takeWhile_append_dropWhile (p := isSpace) (l := s)] at hs
    obtain hs | hs := List.mem_append.1 hs
    · rw [List.mem_takeWhile_imp hs] at hc
      cases hc
    · exact hs
  rw [strip, List.rdropWhile]
  exact List.mem_reverse.2 (hdrop _ (List.mem_reverse.2 (hdrop t hmem)))

/-- What the writer of scalars makes of a loaded value: itself, or of a text under `date` or
`time` the date and time it spells. -/
theorem yamlScalar_cases {key : Text} {v : Value} (hv : loadable v = true) :
    yamlScalar key v = v ∨ key ∈ dateKeys ∧ ∃ t d, v = .str t ∧ 16 ≤ (strip t).length ∧ '\x00' ∉ t ∧
      yamlScalar key v = .timestamp d ∧ d.isReal = true ∧ d.tzinfo = none ∧ d.microsecond = 0 := by
  unfold yamlScalar
  by_cases hkey : key ∈ dateKeys
  · rw [if_neg (by simpa using hkey)]
    cases v with
    | str t =>
      dsimp only
      cases hlocal : localDatetime? t.strip with
      | none => exact Or.inl rfl
      | some numbers =>
        obtain ⟨year, month, day, hour, minute, second⟩ := numbers
        dsimp only
        cases hmake : DateTime.make? year month day hour minute second with
        | none => exact Or.inl rfl
        | some d =>
          obtain ⟨hlength, hnul⟩ := localDatetime?_chars hlocal
          obtain ⟨hreal, hnaive, hwhole⟩ := isReal_of_make? hmake
          refine Or.inr ⟨hkey, t, d, rfl, hlength, ?_, rfl, hreal, hnaive, hwhole⟩
          exact fun hmem => hnul (mem_strip (by decide) hmem)
    | datetime d => cases hv
    | _ => exact Or.inl rfl
  · rw [if_pos hkey]
    exact Or.inl rfl

/-- A canonical text is written unquoted there. -/
theorem yamlScalar_canonical {key : Text} {pads : Bool} (hkey : key ∈ dateKeys)
    (h : d.isReal = true) (hnaive : d.tzinfo = none) (hwhole : d.microsecond = 0)
    (hyear : FullYear pads d) : yamlScalar key (.str (formatNoteTime pads d)) = .timestamp d := by
  have hlocal := localDatetime?_iso h hwhole
  rw [yamlScalar, if_neg (by simpa using hkey), formatNoteTime_full h hyear hwhole]
  rw [hlocal]
  dsimp only
  rw [make?_of_isReal h hnaive hwhole]

end Unquoted

end Coppermind.Sources
