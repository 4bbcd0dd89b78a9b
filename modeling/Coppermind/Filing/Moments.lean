import Coppermind.Filing.ReadBack

/-!
# A note's day and time under normalisation

`parse_note_time` says when a note took place, `_date_value` and `normalize_note_time` write that
as text, and `_yaml_scalar` turns the text into a YAML date and time.  The day and the time stay,
but for a year below 1000 where `strftime` does not pad it; and `_yaml_scalar` reads decimal digits
of every script, which `fromisoformat` does not.
-/

namespace Coppermind.Filing

open Coppermind.Lib Coppermind.Lib.Text Coppermind.Frontmatter Coppermind.Schema
open Coppermind.Notes (strValue formatNoteTime yearDigits)
open Coppermind.Sources (dateValue normalizeNoteTime combine isoDatetime FullYear IsoTexts
  bounds_of_isReal clock_of_isReal formatNoteTime_full fullYear_of_isDate parse_isoDatetime
  parseNoteTime_str parse_short yamlScalar_canonical isReal_of_make? localDatetime?_iso
  isoDatetime_ends strip_of_ends make?_of_isReal)

section Spelled

variable {t : Text}

/-- The date and time `_yaml_scalar` finds in a text. -/
def moment? (t : Text) : Option DateTime := do
  let (year, month, day, hour, minute, second) ← localDatetime? t.strip
  DateTime.make? year month day hour minute second

def isAscii (t : Text) : Bool := t.all fun c => c.toNat < 128

theorem digits?_split {n value number : Nat} {rest : Text}
    (h : digits? n value t = some (number, rest)) :
    ∃ ds : Text, ds.length = n ∧ t = ds ++ rest ∧ ∀ c ∈ ds, (digit? c).isSome = true := by
  induction n generalizing t value with
  | zero =>
    obtain ⟨-, rfl⟩ := Prod.mk.inj (Option.some.inj h)
    exact ⟨[], rfl, rfl, by simp⟩
  | succ n ih =>
    cases t with
    | nil => cases h
    | cons c t =>
      rw [digits?] at h
      obtain ⟨digit, hdigit, h⟩ := Option.bind_eq_some_iff.1 h
      obtain ⟨ds, hlength, rfl, hds⟩ := ih h
      refine ⟨c :: ds, by simp [hlength], rfl, ?_⟩
      intro d hd
      obtain rfl | hd := List.mem_cons.1 hd
      · simp [hdigit]
      · exact hds d hd

/-- A text that ends with a number of two digits does not end in `Z`. -/
theorem endsInZ_digits {before ds : Text} (hlength : ds.length = 2)
    (hds : ∀ c ∈ ds, (digit? c).isSome = true) : endsInZ (before ++ ds) = false := by
  obtain ⟨a, b, rfl⟩ := List.length_eq_two.1 hlength
  have hb := hds b (by simp)
  have hlast : (before ++ [a, b]).getLast? = some b := by simp
  unfold endsInZ
  rw [hlast]
  have hZ : b ≠ 'Z' := by
    rintro rfl
    exact absurd hb (by decide)
  have hz : b ≠ 'z' := by
    rintro rfl
    exact absurd hb (by decide)
  simp [hZ, hz]

/-- The form of a text that `_LOCAL_DATETIME` matches. -/
theorem localDatetime?_shape {numbers : Nat × Nat × Nat × Nat × Nat × Nat}
    (h : localDatetime? t = some numbers) : isLocalDatetime t = true ∧ 16 ≤ t.length ∧
      dashed t = true ∧ charAt? t 10 = some 'T' ∧ endsInZ t = false := by
  unfold localDatetime? at h
  simp only [Option.bind_eq_bind, Option.bind_eq_some_iff] at h
  obtain ⟨⟨year, t1⟩, h1, t1', hd1, ⟨month, t2⟩, h2, t2', hd2, ⟨day, t3⟩, h3, t3', hd3,
    ⟨hour, t4⟩, h4, t4', hd4, ⟨minute, t5⟩, h5, h⟩ := h
  obtain rfl := Sources.char?_chars hd1
  obtain rfl := Sources.char?_chars hd2
  obtain rfl := Sources.char?_chars hd3
  obtain rfl := Sources.char?_chars hd4
  have hlocal : isLocalDatetime t = isClock t3' := by
    unfold isLocalDatetime
    simp [h1, h2, h3]
  have hclock : isClock t3' = true ∧ ∃ before ds : Text, t4' = before ++ ds ∧ ds.length = 2 ∧
      ∀ c ∈ ds, (digit? c).isSome = true := by
    unfold isClock
    simp only [h4, h5]
    obtain ⟨ds, hlength, rfl, hds⟩ := digits?_split h5
    cases t5 with
    | nil => exact ⟨rfl, [], ds, by simp, hlength, hds⟩
    | cons c rest =>
      dsimp only at h
      obtain ⟨t5', hd5, h⟩ := Option.bind_eq_some_iff.1 h
      obtain ⟨⟨second, t6⟩, h6, h⟩ := Option.bind_eq_some_iff.1 h
      obtain rfl : t6 = [] := by
        by_contra hne
        simp [hne] at h
      rw [Sources.char?_chars hd5]
      simp only [h6]
      obtain ⟨ds', hlength', rfl, hds'⟩ := digits?_split h6
      exact ⟨trivial, ds ++ [':'], ds', by simp, hlength', hds'⟩
  obtain ⟨hclock, before, ds, hend, hlength, hds⟩ := hclock
  rw [hlocal]
  obtain ⟨ys, hy, rfl, -⟩ := digits?_split h1
  obtain ⟨ms, hm, rfl, -⟩ := digits?_split h2
  obtain ⟨days, hd, rfl, -⟩ := digits?_split h3
  obtain ⟨hours, hh, rfl, -⟩ := digits?_split h4
  obtain ⟨y₁, y₂, y₃, y₄, rfl⟩ := List.length_eq_four.1 hy
  obtain ⟨m₁, m₂, rfl⟩ := List.length_eq_two.1 hm
  obtain ⟨d₁, d₂, rfl⟩ := List.length_eq_two.1 hd
  refine ⟨hclock, ?_, rfl, rfl, ?_⟩
  · rw [hend]
    simp only [List.length_append, List.length_cons, List.length_nil, hh, hlength]
    omega
  · have hends := @endsInZ_digits ([y₁, y₂, y₃, y₄, '-', m₁, m₂, '-', d₁, d₂, 'T'] ++ hours ++
      ':' :: before) ds hlength hds
    rw [hend]
    simpa using hends

theorem isReal_of_moment? {d : DateTime} (h : moment? t = some d) :
    d.isReal = true ∧ d.tzinfo = none ∧ d.microsecond = 0 := by
  obtain ⟨numbers, -, hmake⟩ := Option.bind_eq_some_iff.1 h
  exact isReal_of_make? hmake

theorem yamlScalar_str {key : Text} (hkey : key ∈ dateKeys) (t : Text) :
    yamlScalar key (.str t) = (moment? t).elim (.str t) .timestamp := by
  rw [yamlScalar, if_neg (by simpa using hkey), moment?]
  dsimp only
  cases localDatetime? t.strip with
  | none => rfl
  | some numbers =>
    obtain ⟨year, month, day, hour, minute, second⟩ := numbers
    dsimp only
    cases hmake : DateTime.make? year month day hour minute second with
    | none =>
      change _ = (DateTime.make? year month day hour minute second).elim _ _
      rw [hmake]
      rfl
    | some d =>
      change _ = (DateTime.make? year month day hour minute second).elim _ _
      rw [hmake]
      rfl

end Spelled

section Reading

/-- `datetime.fromisoformat` of a local date and time: it takes ASCII digits only, and it takes
what they spell. -/
structure LocalTexts (py : Python) : Prop where
  reads : ∀ t d, t.strip = t → moment? t = some d → isAscii t = true →
    py.datetimeFromIso t = some d
  ascii : ∀ t d, py.datetimeFromIso t = some d → dashed t = true → charAt? t 10 = some 'T' →
    isAscii t = true

/-- A date or a datetime that is one of the calendar. -/
def ofCalendar : Value → Bool
  | .date d => d.isReal
  | .datetime d | .timestamp d => d.isReal
  | _ => true

variable {py : Python} {v : Value} {day : Date} {clock : Option ClockTime}

/-- A value is valid, with this day and maybe a time. -/
structure ReadAs (py : Python) (v : Value) (day : Date) (clock : Option ClockTime) : Prop where
  valid : (parseNoteTime py (some v)).valid = true
  day : (parseNoteTime py (some v)).dateValue = some day
  clock : (parseNoteTime py (some v)).timeValue = clock

/-- A day with a time comes from one datetime. -/
theorem moment_of_parse {t : Text} {clock : ClockTime}
    (hday : (parseNoteTimeText py t).dateValue = some day)
    (hclock : (parseNoteTimeText py t).timeValue = some clock) :
    ∃ d, py.datetimeFromIso t.strip = some d ∧ day = d.date ∧ clock = wholeSeconds d := by
  unfold parseNoteTimeText at hday hclock
  dsimp only at hday hclock
  split at hday
  · cases hday
  · next hne =>
    rw [if_neg hne] at hclock
    split at hday
    · next hten =>
      rw [if_pos hten] at hclock
      cases hclock
    · next hten =>
      rw [if_neg hten] at hclock
      split at hday
      · next hlong =>
        rw [if_pos hlong] at hclock
        cases hread : py.datetimeFromIso t.strip with
        | none =>
          rw [hread] at hday
          cases hday
        | some d =>
          rw [hread] at hday hclock
          dsimp only at hday hclock
          refine ⟨d, rfl, ?_⟩
          split at hday
          · next hoffset =>
            rw [if_pos hoffset] at hclock
            exact ⟨(Option.some.inj hday).symm, (Option.some.inj hclock).symm⟩
          · next hoffset =>
            rw [if_neg hoffset] at hclock
            split at hday
            · next hlocal =>
              rw [if_pos hlocal] at hclock
              exact ⟨(Option.some.inj hday).symm, (Option.some.inj hclock).symm⟩
            · cases hday
      · split at hday
        · cases hday
        · split at hday
          · cases hday
          · split at hday <;> cases hday

/-- What a value is read as is of the calendar, and its time is local with whole seconds. -/
theorem ReadAs.real (hiso : IsoTexts py) (hv : ofCalendar v = true) (h : ReadAs py v day clock) :
    day.isReal = true ∧ ∀ c, clock = some c → (combine day c).isReal = true ∧
      wholeSeconds (combine day c) = c := by
  obtain ⟨hvalid, hday, hclock⟩ := h
  have hmoment : ∀ d : DateTime, d.isReal = true → d.date.isReal = true ∧
      (combine d.date (wholeSeconds d)).isReal = true := by
    intro d hreal
    obtain ⟨hdate, hhour, hminute, hsecond⟩ := clock_of_isReal hreal
    exact ⟨hdate, by simp [DateTime.isReal, combine, wholeSeconds, hdate, hhour, hminute, hsecond]⟩
  cases v with
  | date d =>
    obtain rfl := Option.some.inj hday
    refine ⟨hv, ?_⟩
    rintro c rfl
    cases hclock
  | datetime d | timestamp d =>
    obtain rfl := Option.some.inj hday
    refine ⟨(hmoment d hv).1, ?_⟩
    rintro c rfl
    obtain rfl := Option.some.inj hclock
    exact ⟨(hmoment d hv).2, rfl⟩
  | str t =>
    refine ⟨(Sources.real_of_parse hiso hday).1, ?_⟩
    rintro c rfl
    obtain ⟨d, hread, rfl, rfl⟩ := moment_of_parse hday hclock
    exact ⟨(hmoment d (hiso.datetime_isReal _ _ hread)).2, rfl⟩
  | _ => cases hvalid

theorem microsecond_of_whole {c : ClockTime} (h : wholeSeconds (combine day c) = c) :
    (combine day c).microsecond = 0 := by
  rw [← h]
  rfl

def midnight : ClockTime := ⟨0, 0, 0, 0, none⟩

/-- So is the day with its time, or with midnight. -/
theorem ReadAs.combined (hiso : IsoTexts py) (hv : ofCalendar v = true)
    (h : ReadAs py v day clock) : (combine day (clock.getD midnight)).isReal = true ∧
      wholeSeconds (combine day (clock.getD midnight)) = clock.getD midnight := by
  obtain ⟨hday, hclock⟩ := h.real hiso hv
  cases clock with
  | none => exact ⟨by simp [DateTime.isReal, combine, hday, midnight], rfl⟩
  | some c => exact hclock c rfl

/-- A canonical text is read as what it was written from. -/
theorem readAs_canonical (hiso : IsoTexts py) {d : DateTime} (hreal : d.isReal = true)
    (hnaive : d.tzinfo = none) (hwhole : d.microsecond = 0) (hyear : FullYear py.padsYears d) :
    ReadAs py (.str (formatNoteTime py.padsYears d)) d.date (some (wholeSeconds d)) := by
  have hparse := parse_isoDatetime hiso hreal hnaive hwhole
  rw [← formatNoteTime_full hreal hyear hwhole] at hparse
  rw [← parseNoteTime_str] at hparse
  exact ⟨by rw [hparse], by rw [hparse], by rw [hparse]⟩

theorem readAs_timestamp {d : DateTime} (hnaive : d.tzinfo = none) :
    ReadAs py (.timestamp d) d.date (some (wholeSeconds d)) :=
  ⟨by simp [parseNoteTime, hnaive], rfl, rfl⟩

theorem ReadAs.dateValue_eq (h : ReadAs py v day clock) : dateValue py v =
    clock.elim (.date day) fun c => .str (formatNoteTime py.padsYears (combine day c)) := by
  unfold dateValue
  dsimp only
  rw [if_neg (by simp [h.valid]), h.day, h.clock]
  cases clock <;> rfl

/-- `normalize_note_time` writes the day with its time, or with midnight. -/
theorem ReadAs.normalizeNoteTime_eq (h : ReadAs py v day clock)
    (hclock : ∀ c, clock = some c → wholeSeconds (combine day c) = c) (fallback : Option Date) :
    normalizeNoteTime py (some v) fallback =
      .str (formatNoteTime py.padsYears (combine day (clock.getD midnight))) := by
  unfold normalizeNoteTime
  dsimp only
  rw [if_neg (by simp [h.valid]), h.day, h.clock]
  cases clock with
  | none => rfl
  | some c =>
    have hwhole : ({ c with microsecond := 0 } : ClockTime) = c := by
      rw [← hclock c rfl]
      rfl
    change Value.str (formatNoteTime py.padsYears (combine day { c with microsecond := 0 })) = _
    rw [hwhole]
    rfl

end Reading

section Kept

/-- The key a day is written under. -/
def dateKey : Text := "date".toList

/-- `_yaml_scalar('date', _date_value(v))`. -/
def writtenDate (py : Python) (v : Value) : Value := yamlScalar dateKey (dateValue py v)

/-- Normalising keeps what a value is read as, once is enough, and no value becomes valid by it. -/
structure KeepsMoment (py : Python) (v : Value) : Prop where
  dateValue : ∀ day clock, ReadAs py v day clock →
    ReadAs py (dateValue py v) day clock ∧ dateValue py (dateValue py v) = dateValue py v
  normalized : ∀ day clock, ReadAs py v day clock → ∀ fallback,
    ReadAs py (normalizeNoteTime py (some v) fallback) day (some (clock.getD midnight)) ∧
      ∀ fallback', normalizeNoteTime py (some (normalizeNoteTime py (some v) fallback)) fallback' =
        normalizeNoteTime py (some v) fallback
  written : ∀ day clock, ReadAs py v day clock → ReadAs py (writtenDate py v) day clock ∧
    yamlScalar dateKey (writtenDate py v) = writtenDate py v ∧
      writtenDate py (writtenDate py v) = writtenDate py v
  invalid : (parseNoteTime py (some v)).valid = false →
    (parseNoteTime py (some (Sources.dateValue py v))).valid = false ∧
      ∀ key, (parseNoteTime py (some (yamlScalar key v))).valid = false

/-- The year of the value's day is written in four digits, and a text that spells a date and time
has ASCII digits. -/
structure Plain (py : Python) (v : Value) : Prop where
  year : ∀ day, (parseNoteTime py (some v)).valid = true →
    (parseNoteTime py (some v)).dateValue = some day → py.padsYears = true ∨ 1000 ≤ day.year
  digits : ∀ t, v = .str t → (moment? t).isSome = true → isAscii t.strip = true

variable {py : Python} {v : Value} (hiso : IsoTexts py) (hlocal : LocalTexts py)

/-- The canonical text of a day and time is settled under all three. -/
structure Settled (py : Python) (d : DateTime) : Prop where
  dateValue : dateValue py (.str (formatNoteTime py.padsYears d)) =
    .str (formatNoteTime py.padsYears d)
  normalized : ∀ fallback, normalizeNoteTime py (some (.str (formatNoteTime py.padsYears d)))
    fallback = .str (formatNoteTime py.padsYears d)
  timestamp : writtenDate py (.timestamp d) = .timestamp d

include hiso in
theorem settled {d : DateTime} (hreal : d.isReal = true) (hnaive : d.tzinfo = none)
    (hwhole : d.microsecond = 0) (hyear : FullYear py.padsYears d) : Settled py d := by
  have hread := readAs_canonical hiso hreal hnaive hwhole hyear
  have hcombine : combine d.date (wholeSeconds d) = d := by
    obtain ⟨date, hour, minute, second, microsecond, tzinfo⟩ := d
    dsimp only at hnaive hwhole
    subst hnaive hwhole
    rfl
  refine ⟨?_, fun fallback => ?_, ?_⟩
  · rw [hread.dateValue_eq, Option.elim_some, hcombine]
  · rw [hread.normalizeNoteTime_eq _ fallback, Option.getD_some, hcombine]
    rintro c hc
    obtain rfl := Option.some.inj hc
    rfl
  · rw [writtenDate, (readAs_timestamp hnaive).dateValue_eq, Option.elim_some, hcombine,
      yamlScalar_canonical (by decide) hreal hnaive hwhole hyear]

theorem yamlScalar_timestamp (key : Text) (d : DateTime) :
    yamlScalar key (.timestamp d) = .timestamp d := by
  unfold yamlScalar
  split <;> rfl

/-- How a text that spells a date and time is read: as `fromisoformat` reads it. -/
theorem parse_of_moment? {t : Text} {d : DateTime} (hmoment : moment? t = some d) :
    (py.datetimeFromIso t.strip = none → (parseNoteTimeText py t).valid = false) ∧
      (py.datetimeFromIso t.strip = some d → (parseNoteTimeText py t).valid = true) := by
  obtain ⟨numbers, hmatch, -⟩ := Option.bind_eq_some_iff.1 hmoment
  obtain ⟨hlocal, hlength, hdashed, hsep, hends⟩ := localDatetime?_shape hmatch
  obtain ⟨-, hnaive, -⟩ := isReal_of_moment? hmoment
  have hne : t.strip ≠ [] := by
    intro hnil
    rw [hnil] at hlength
    exact absurd hlength (by decide)
  have hten : ¬(t.strip.length = 10 ∧ dashed t.strip = true) := by omega
  have hlong : 10 < t.strip.length ∧ dashed t.strip = true ∧ (charAt? t.strip 10 = some 'T' ∨
      charAt? t.strip 10 = some 't' ∨ charAt? t.strip 10 = some ' ') :=
    ⟨by omega, hdashed, Or.inl hsep⟩
  unfold parseNoteTimeText
  dsimp only
  rw [if_neg hne, if_neg hten, if_pos hlong]
  constructor
  · intro hread
    rw [hread]
  · intro hread
    rw [hread]
    dsimp only
    rw [if_neg (by simp [hnaive, hends]), if_pos hlocal]

include hlocal in
/-- It is valid in ASCII digits, and only in those. -/
theorem valid_of_moment? {t : Text} {d : DateTime} (hmoment : moment? t = some d) :
    (parseNoteTime py (some (.str t))).valid = isAscii t.strip := by
  rw [parseNoteTime_str]
  obtain ⟨numbers, hmatch, -⟩ := Option.bind_eq_some_iff.1 hmoment
  obtain ⟨-, -, hdashed, hsep, -⟩ := localDatetime?_shape hmatch
  obtain ⟨hrefused, hread⟩ := @parse_of_moment? py t d hmoment
  cases hascii : isAscii t.strip with
  | true =>
    have hstrip := Naming.strip_strip t
    apply hread
    refine hlocal.reads _ _ hstrip ?_ hascii
    rw [moment?, hstrip]
    exact hmoment
  | false =>
    apply hrefused
    cases hfound : py.datetimeFromIso t.strip with
    | none => rfl
    | some found =>
      rw [hlocal.ascii _ _ hfound hdashed hsep] at hascii
      cases hascii

include hiso hlocal in
theorem keepsMoment_of_plain (hv : ofCalendar v = true) (h : Plain py v) : KeepsMoment py v where
  dateValue day clock hread := by
    obtain ⟨hday, hclock⟩ := hread.real hiso hv
    rw [hread.dateValue_eq]
    cases clock with
    | none => exact ⟨⟨rfl, rfl, rfl⟩, rfl⟩
    | some c =>
      obtain ⟨hreal, hwhole⟩ := hclock c rfl
      have hyear := h.year day hread.valid hread.day
      refine ⟨?_, (settled hiso hreal rfl (microsecond_of_whole hwhole) hyear).dateValue⟩
      have hcanonical := readAs_canonical hiso hreal rfl (microsecond_of_whole hwhole) hyear
      rwa [hwhole] at hcanonical
  normalized day clock hread fallback := by
    obtain ⟨hreal, hwhole⟩ := hread.combined hiso hv
    have hyear := h.year day hread.valid hread.day
    rw [hread.normalizeNoteTime_eq (fun c hc => ((hread.real hiso hv).2 c hc).2)]
    refine ⟨?_, (settled hiso hreal rfl (microsecond_of_whole hwhole) hyear).normalized⟩
    have hcanonical := readAs_canonical hiso hreal rfl (microsecond_of_whole hwhole) hyear
    rwa [hwhole] at hcanonical
  written day clock hread := by
    obtain ⟨hday, hclock⟩ := hread.real hiso hv
    unfold writtenDate
    rw [hread.dateValue_eq]
    cases clock with
    | none => exact ⟨⟨rfl, rfl, rfl⟩, rfl, rfl⟩
    | some c =>
      obtain ⟨hreal, hwhole⟩ := hclock c rfl
      have hyear := h.year day hread.valid hread.day
      rw [Option.elim_some,
        yamlScalar_canonical (by decide) hreal rfl (microsecond_of_whole hwhole) hyear]
      refine ⟨?_, yamlScalar_timestamp .., ?_⟩
      · have htimestamp := @readAs_timestamp py (combine day c) rfl
        rwa [hwhole] at htimestamp
      · exact (settled hiso hreal rfl (microsecond_of_whole hwhole) hyear).timestamp
  invalid hinvalid := by
    constructor
    · have hself : Sources.dateValue py v = v := by
        unfold Sources.dateValue
        dsimp only
        rw [if_pos (by simp [hinvalid])]
      rwa [hself]
    · intro key
      by_cases hkey : key ∈ dateKeys
      · cases v with
        | str t =>
          rw [yamlScalar_str hkey]
          cases hmoment : moment? t with
          | none => exact hinvalid
          | some d =>
            rw [valid_of_moment? hlocal hmoment, h.digits t rfl (by simp [hmoment])] at hinvalid
            cases hinvalid
        | datetime d =>
          -- One with an offset stays, and any other is valid.
          have haware : ¬d.tzinfo = none := by
            intro hnaive
            simp [parseNoteTime, hnaive] at hinvalid
          unfold yamlScalar
          dsimp only
          rwa [if_neg (by simpa using hkey), if_neg haware]
        | _ =>
          unfold yamlScalar
          rwa [if_neg (by simpa using hkey)]
      · rwa [Sources.yamlScalar_of_notMem hkey]

include hiso hlocal in
theorem plain_of_keepsMoment (hv : ofCalendar v = true) (h : KeepsMoment py v) : Plain py v := by
  constructor
  · intro day hvalid hday
    by_contra hshort
    have hread : ReadAs py v day (parseNoteTime py (some v)).timeValue := ⟨hvalid, hday, rfl⟩
    obtain ⟨hreal, -⟩ := hread.combined hiso hv
    have hkept := (h.normalized day _ hread none).1.day
    rw [hread.normalizeNoteTime_eq (fun c hc => ((hread.real hiso hv).2 c hc).2),
      parseNoteTime_str, parse_short hreal hshort] at hkept
    cases hkept
  · rintro t rfl hsome
    obtain ⟨d, hmoment⟩ := Option.isSome_iff_exists.1 hsome
    by_contra hascii
    have hinvalid := valid_of_moment? hlocal hmoment
    rw [Bool.eq_false_iff.2 hascii] at hinvalid
    have hwritten := (h.invalid hinvalid).2 dateKey
    rw [yamlScalar_str (by decide), hmoment, Option.elim_some,
      (readAs_timestamp (isReal_of_moment? hmoment).2.1).valid] at hwritten
    cases hwritten

include hiso hlocal in
/-- **The day and the time are kept** where the year is written in four digits and a date and time
in ASCII digits, and nowhere else. -/
theorem keepsMoment_iff (hv : ofCalendar v = true) : KeepsMoment py v ↔ Plain py v :=
  ⟨plain_of_keepsMoment hiso hlocal hv, keepsMoment_of_plain hiso hlocal hv⟩

end Kept

section Samples

theorem ascii_digitChar : ∀ n < 10, (Nat.digitChar n).toNat < 128 := by decide

theorem isAscii_isoDatetime {d : DateTime} (h : d.isReal = true) (hwhole : d.microsecond = 0) :
    isAscii (isoDatetime d) = true := by
  obtain ⟨hdate, hhour, hminute, hsecond⟩ := clock_of_isReal h
  obtain ⟨hyear, hmonth, hday⟩ := bounds_of_isReal hdate
  have hdigit := ascii_digitChar
  have hdash : '-'.toNat < 128 := by decide
  have hsep : 'T'.toNat < 128 := by decide
  have hcolon : ':'.toNat < 128 := by decide
  rw [Sources.isoDatetime_eq h, hwhole]
  simp only [isAscii, Sources.dayText, Sources.clockText, Sources.fraction, Sources.fourDigits,
    Sources.pair, if_true, List.append_nil, List.cons_append, List.nil_append, List.all_cons,
    List.all_nil, hdash, hsep, hcolon, hdigit (d.date.year / 1000) (by omega),
    hdigit (d.date.year / 100 % 10) (by omega), hdigit (d.date.year / 10 % 10) (by omega),
    hdigit (d.date.year % 10) (by omega), hdigit (d.date.month / 10) (by omega),
    hdigit (d.date.month % 10) (by omega), hdigit (d.date.day / 10) (by omega),
    hdigit (d.date.day % 10) (by omega), hdigit (d.hour / 10) (by omega),
    hdigit (d.hour % 10) (by omega), hdigit (d.minute / 10) (by omega),
    hdigit (d.minute % 10) (by omega), hdigit (d.second / 10) (by omega),
    hdigit (d.second % 10) (by omega), decide_true, Bool.and_self]

/-- A date and time in ASCII digits. -/
def readAscii (t : Text) : Option DateTime := if isAscii t then readDatetime t else none

theorem readAscii_eq_some {t : Text} {d : DateTime} :
    readAscii t = some d ↔ isAscii t = true ∧ readDatetime t = some d := by
  unfold readAscii
  rw [Option.ite_none_right_eq_some]

/-- The library as far as dates are concerned, which reads ASCII digits only. -/
def asciiPython : Python where
  str _ := []
  repr _ := []
  isoformat := isoPython.isoformat
  casefold := id
  dateFromIso := readDay
  datetimeFromIso := readAscii
  timeFromIso _ := none
  padsYears := true

theorem asciiPython_texts : IsoTexts asciiPython where
  isoformat_date d h := by simp [asciiPython, isoPython, h]
  isoformat_timestamp d h hnaive := by simp [asciiPython, isoPython, h, hnaive]
  reads_date _ h := readDay_isoDate h
  reads_datetime d h hnaive hwhole := by
    have hread : readDatetime (isoDatetime d) = some d :=
      isoPython_texts.reads_datetime d h hnaive hwhole
    simp only [asciiPython]
    exact readAscii_eq_some.2 ⟨isAscii_isoDatetime h hwhole, hread⟩
  date_isReal _ _ h := isReal_of_readDay h
  datetime_isReal t d h := isoPython_texts.datetime_isReal t d (readAscii_eq_some.1 h).2

theorem asciiPython_local : LocalTexts asciiPython where
  reads t d hstrip hmoment hascii := by
    rw [moment?, hstrip] at hmoment
    exact readAscii_eq_some.2 ⟨hascii, hmoment⟩
  ascii _ _ h _ _ := (readAscii_eq_some.1 h).1

theorem keepsMoment_iff_evening :
    KeepsMoment asciiPython (.str " 2026-09-18T19:30 ".toList) := by
  refine (keepsMoment_iff asciiPython_texts asciiPython_local rfl).2 ⟨fun _ _ _ => Or.inl rfl, ?_⟩
  rintro t ht -
  obtain rfl := Value.str.inj ht
  decide

/-- A year in digits of another script: no note time, until it is written under `date`. -/
theorem yamlScalar_validates : ¬KeepsMoment asciiPython (.str "２０２６-09-18T19:30".toList) := by
  intro h
  have hinvalid := (h.invalid (by decide)).2 dateKey
  exact absurd hinvalid (by decide)

end Samples

end Coppermind.Filing
