import Coppermind.Notes.Row

/-!
# The JSON form of a value

`_jsonable` is what a read hands out.  Applied to what it made, it changes nothing: its keys and
its strings hold no NUL, and its dates are text.  Over a mapping with text keys it goes from value
to value.
-/

namespace Coppermind.Frontmatter

open Coppermind.Lib

/-- A date there is. -/
def Date.isReal (d : Date) : Bool := Date.make? d.year d.month d.day == some d

/-- A date and time there is. -/
def DateTime.isReal (d : DateTime) : Bool :=
  d.date.isReal && d.hour < 24 && d.minute < 60 && d.second < 60 && d.microsecond < 1000000

mutual

/-- What the loader makes: its dates exist, a date and time is a `TimeStamp`, and a string that no
text is holds a surrogate. -/
def loadable : Value → Bool
  | .surrogateStr points => !PyStr.encodable points
  | .date d => d.isReal
  | .datetime _ => false
  | .timestamp d => d.isReal
  | .seq _ items => loadableItems items
  | .map entries => loadableEntries entries
  | _ => true
termination_by structural value => value

def loadableItems : List Value → Bool
  | [] => true
  | item :: items => loadable item && loadableItems items
termination_by structural items => items

def loadableEntries : List (Value × Value) → Bool
  | [] => true
  | entry :: rest => loadableEntry entry && loadableEntries rest
termination_by structural entries => entries

def loadableEntry : Value × Value → Bool
  | (key, value) => loadable key && loadable value
termination_by structural entry => entry

end

mutual

theorem same_self : ∀ v : Value, v.same v = true
  | .seq flow items => by simp [Value.same, sameItems_self items]
  | .map entries => by simp [Value.same, sameEntries_self entries]
  | .null | .bool _ | .int _ | .float _ | .str _ | .surrogateStr _ | .date _ | .datetime _
  | .timestamp _ | .other _ => by simp [Value.same]
termination_by structural v => v

theorem sameItems_self : ∀ items : List Value, sameItems items items = true
  | [] => rfl
  | item :: items => by simp [sameItems, same_self item, sameItems_self items]
termination_by structural items => items

theorem sameEntries_self : ∀ entries : List (Value × Value), sameEntries entries entries = true
  | [] => rfl
  | entry :: rest => by simp [sameEntries, sameEntry_self entry, sameEntries_self rest]
termination_by structural entries => entries

theorem sameEntry_self : ∀ entry : Value × Value, sameEntry entry entry = true
  | (key, value) => by simp [sameEntry, same_self key, same_self value]
termination_by structural entry => entry

end

theorem same_iff {v w : Value} : v.same w = true ↔ v = w := by
  constructor
  · exact eq_of_same v w
  · rintro rfl
    exact same_self v

end Coppermind.Frontmatter

namespace Coppermind.Notes

open Coppermind.Lib Coppermind.Frontmatter Coppermind.Schema

section Strings

variable {points : PyStr}

/-- The value of a string is read as that string. -/
def IsString (points : PyStr) : Prop := str? (strValue points) = some points

theorem isString_of_codes (h : ∀ c ∈ points, c < 0x110000) : IsString points := by
  have hstr := @strOf_strValue ⟨fun _ => [], fun _ => [], fun _ => [], id, fun _ => none,
    fun _ => none, fun _ => none, fun _ => true, false⟩ _ h
  obtain ⟨t, ht⟩ | ht := strValue_cases points
  · rw [ht] at hstr
    rw [IsString, ht]
    exact congrArg some hstr
  · rw [IsString, ht]
    rfl

theorem codes_ofText (t : Text) : ∀ c ∈ PyStr.ofText t, c < 0x110000 := by
  intro c hc
  obtain ⟨char, -, rfl⟩ := List.mem_map.1 hc
  have hvalid : char.toNat < 0xd800 ∨ 0xdfff < char.toNat ∧ char.toNat < 0x110000 := char.valid
  omega

theorem codes_storable (h : ∀ c ∈ points, c < 0x110000) : ∀ c ∈ storable points, c < 0x110000 :=
  fun c hc => h c (List.mem_of_mem_filter hc)

theorem isString_storable_of_surrogate (h : points.encodable = false) :
    IsString (storable points) := by
  have hsurrogate : (storable points).encodable = false := by
    obtain ⟨c, hc, hs⟩ := List.all_eq_false.1 h
    refine List.all_eq_false.2 ⟨c, List.mem_filter.2 ⟨hc, ?_⟩, hs⟩
    have hne : c ≠ 0 := by
      rintro rfl
      exact hs rfl
    simpa using hne
  rw [IsString, strValue, if_neg (by simp [hsurrogate])]
  rfl

theorem zero_notMem_storable (points : PyStr) : 0 ∉ storable points :=
  PyStr.zero_notMem_dropNul points

theorem storable_of_notMem (h : 0 ∉ points) : storable points = points := by
  rw [storable, PyStr.dropNul, List.filter_eq_self]
  intro c hc
  have hne : c ≠ 0 := fun hzero => h (hzero ▸ hc)
  simpa using hne

theorem IsString.strOf (h : IsString points) (py : Python) : strOf py (strValue points) = points := by
  unfold IsString at h
  obtain ⟨t, ht⟩ | ht := strValue_cases points
  · rw [ht] at h ⊢
    exact Option.some.inj h
  · rw [ht] at h ⊢
    exact Option.some.inj h

/-- Strings of one value are one. -/
theorem IsString.inj {other : PyStr} (h : IsString points) (hother : IsString other)
    (heq : strValue points = strValue other) : points = other := by
  unfold IsString at h hother
  rw [heq, hother] at h
  exact (Option.some.inj h).symm

theorem jsonable_strValue (py : Python) (h : IsString points) (hnul : 0 ∉ points) :
    jsonable py (strValue points) = strValue points := by
  unfold IsString at h
  obtain ⟨t, ht⟩ | ht := strValue_cases points
  · rw [ht] at h ⊢
    have htext : PyStr.ofText t = points := Option.some.inj h
    rw [jsonable, htext, storable_of_notMem hnul, ht]
  · rw [ht, jsonable, storable_of_notMem hnul, ht]

end Strings

section Settled

/-- A key of a mapping that came through JSON. -/
def JsonKey (key : Value) : Prop := ∃ points, IsString points ∧ 0 ∉ points ∧ key = strValue points

/-- The library writes dates, and whatever else it writes as text, in code points. -/
structure WritesCodes (py : Python) : Prop where
  str : ∀ v, ∀ c ∈ py.str v, c < 0x110000
  isoformat : ∀ v, ∀ c ∈ py.isoformat v, c < 0x110000
  isoformat_nul : ∀ v, 0 ∉ py.isoformat v

variable {py : Python}

/-- A mapping with keys of JSON, each once, and settled values. -/
structure Settled (py : Python) (entries : Entries) : Prop where
  keys : ∀ e ∈ entries, JsonKey e.1
  nodup : (entries.map (·.1)).Nodup
  values : ∀ e ∈ entries, jsonable py e.2 = e.2

theorem settled_nil : Settled py [] where
  keys := by simp
  nodup := List.nodup_nil
  values := by simp

theorem str?_key_iff {key : PyStr} (hkey : IsString key) {name : Value} (hname : JsonKey name) :
    (str? name == some key) = name.same (strValue key) := by
  rw [Bool.eq_iff_iff, beq_iff_eq, same_iff]
  obtain ⟨points, hpoints, -, rfl⟩ := hname
  rw [hpoints, Option.some.injEq]
  constructor
  · rintro rfl
    rfl
  · exact fun h => hpoints.inj hkey h

/-- A key that is there is set where it stands. -/
theorem setStr_of_mem {entries : Entries} {key : PyStr} {v : Value}
    (hkeys : ∀ e ∈ entries, JsonKey e.1) (hkey : IsString key)
    (hmem : strValue key ∈ entries.map (·.1)) :
    setStr entries key v =
      entries.map fun e => (e.1, if e.1.same (strValue key) then v else e.2) := by
  obtain ⟨e, he, hname⟩ := List.mem_map.1 hmem
  have hany : (entries.any fun e => str? e.1 == some key) = true := by
    refine List.any_eq_true.2 ⟨e, he, ?_⟩
    rw [str?_key_iff hkey (hkeys e he), same_iff]
    exact hname
  rw [setStr, if_pos hany]
  apply List.map_congr_left
  intro e he
  rw [str?_key_iff hkey (hkeys e he)]
  split <;> rfl

/-- A new key comes last. -/
theorem setStr_of_notMem {entries : Entries} {key : PyStr} {v : Value}
    (hkeys : ∀ e ∈ entries, JsonKey e.1) (hkey : IsString key)
    (hmem : strValue key ∉ entries.map (·.1)) :
    setStr entries key v = entries ++ [(strValue key, v)] := by
  rw [setStr, if_neg]
  rw [List.any_eq_true]
  rintro ⟨e, he, hstr⟩
  rw [str?_key_iff hkey (hkeys e he), same_iff] at hstr
  exact hmem (List.mem_map.2 ⟨e, he, hstr⟩)

theorem Settled.setStr {entries : Entries} (h : Settled py entries) {key : PyStr} {v : Value}
    (hkey : IsString key) (hnul : 0 ∉ key) (hv : jsonable py v = v) :
    Settled py (setStr entries key v) := by
  by_cases hmem : strValue key ∈ entries.map (·.1)
  · rw [setStr_of_mem h.keys hkey hmem]
    constructor
    · intro e he
      obtain ⟨e', he', rfl⟩ := List.mem_map.1 he
      exact h.keys e' he'
    · rw [List.map_map]
      exact h.nodup
    · intro e he
      obtain ⟨e', he', rfl⟩ := List.mem_map.1 he
      dsimp only
      split
      · exact hv
      · exact h.values e' he'
  · rw [setStr_of_notMem h.keys hkey hmem]
    constructor
    · intro e he
      obtain he | he := List.mem_append.1 he
      · exact h.keys e he
      · obtain rfl := List.mem_singleton.1 he
        exact ⟨key, hkey, hnul, rfl⟩
    · rw [List.map_append]
      exact h.nodup.append (List.nodup_singleton _) (by simpa using hmem)
    · intro e he
      obtain he | he := List.mem_append.1 he
      · exact h.values e he
      · obtain rfl := List.mem_singleton.1 he
        exact hv

/-- **JSON of a mapping** with such keys: value by value. -/
theorem jsonableEntries_eq (entries : List (Value × Value)) {done : Entries}
    (hkeys : ∀ e ∈ entries, JsonKey e.1) (hdone : ∀ e ∈ done, JsonKey e.1)
    (hnodup : (done.map (·.1) ++ entries.map (·.1)).Nodup) :
    jsonableEntries py entries done = done ++ entries.map fun e => (e.1, jsonable py e.2) := by
  induction entries generalizing done with
  | nil => simp [jsonableEntries]
  | cons entry rest ih =>
    obtain ⟨key, value⟩ := entry
    obtain ⟨points, hpoints, hnul, hname⟩ := hkeys _ List.mem_cons_self
    dsimp only at hname
    subst hname
    have hstr : storable (strOf py (strValue points)) = points := by
      rw [hpoints.strOf, storable_of_notMem hnul]
    have hfresh : strValue points ∉ done.map (·.1) := by
      intro hmem
      exact (List.nodup_append.1 hnodup).2.2 _ hmem _ List.mem_cons_self rfl
    rw [jsonableEntries, jsonableEntry, hstr, setStr_of_notMem hdone hpoints hfresh,
      ih (fun e he => hkeys e (List.mem_cons_of_mem _ he)) ?_ (by simpa using hnodup)]
    · simp
    · intro e he
      obtain he | he := List.mem_append.1 he
      · exact hdone e he
      · obtain rfl := List.mem_singleton.1 he
        exact ⟨points, hpoints, hnul, rfl⟩

theorem Settled.jsonableEntries_self {entries : Entries} (h : Settled py entries) :
    jsonableEntries py entries [] = entries := by
  rw [jsonableEntries_eq entries h.keys (fun _ h => by cases h) (by simpa using h.nodup)]
  rw [List.nil_append]
  conv_rhs => rw [← List.map_id entries]
  apply List.map_congr_left
  intro e he
  rw [h.values e he]
  rfl

theorem isString_key (hpy : WritesCodes py) {key : Value} (h : loadable key = true) :
    IsString (storable (strOf py key)) := by
  cases key with
  | surrogateStr points =>
    have hsurrogate : PyStr.encodable points = false := by simpa [loadable] using h
    exact isString_storable_of_surrogate hsurrogate
  | str s => exact isString_of_codes (codes_storable (codes_ofText s))
  | other s => exact isString_of_codes (codes_storable (codes_ofText s))
  | _ => exact isString_of_codes (codes_storable (hpy.str _))

mutual

/-- **JSON is settled**: what a read hands out is its own JSON form. -/
theorem jsonable_jsonable (hpy : WritesCodes py) (v : Value) (h : loadable v = true) :
    jsonable py (jsonable py v) = jsonable py v := by
  have hiso : ∀ v, jsonable py (strValue (py.isoformat v)) = strValue (py.isoformat v) := fun v =>
    jsonable_strValue py (isString_of_codes (hpy.isoformat v)) (hpy.isoformat_nul v)
  cases v with
  | null | bool _ | int _ | float _ => rfl
  | str s =>
    exact jsonable_strValue py (isString_of_codes (codes_storable (codes_ofText s)))
      (zero_notMem_storable _)
  | other s =>
    exact jsonable_strValue py (isString_of_codes (codes_storable (codes_ofText s)))
      (zero_notMem_storable _)
  | surrogateStr points =>
    exact jsonable_strValue py (isString_storable_of_surrogate (by simpa [loadable] using h))
      (zero_notMem_storable _)
  | date d => exact hiso _
  | datetime d => exact hiso _
  | timestamp d => exact hiso _
  | seq flow items =>
    simp only [jsonable]
    rw [jsonableItems_jsonableItems hpy items (by simpa [loadable] using h)]
  | map entries =>
    simp only [jsonable]
    have hentries : loadableEntries entries = true := by simpa [loadable] using h
    rw [(settled_jsonableEntries hpy entries hentries [] settled_nil).jsonableEntries_self]
termination_by structural v

theorem jsonableItems_jsonableItems (hpy : WritesCodes py) (items : List Value) (h : loadableItems items = true) :
    jsonableItems py (jsonableItems py items) = jsonableItems py items := by
  cases items with
  | nil => rfl
  | cons item items =>
    rw [loadableItems, Bool.and_eq_true] at h
    simp only [jsonableItems]
    rw [jsonable_jsonable hpy item h.1, jsonableItems_jsonableItems hpy items h.2]
termination_by structural items

theorem settled_jsonableEntries (hpy : WritesCodes py) (entries : List (Value × Value))
    (h : loadableEntries entries = true) :
    ∀ done, Settled py done → Settled py (jsonableEntries py entries done) := by
  intro done hdone
  cases entries with
  | nil => exact hdone
  | cons entry rest =>
    rw [loadableEntries, Bool.and_eq_true] at h
    exact settled_jsonableEntries hpy rest h.2 _ (settled_jsonableEntry hpy entry h.1 done hdone)
termination_by structural entries

theorem settled_jsonableEntry (hpy : WritesCodes py) (entry : Value × Value) (h : loadableEntry entry = true) :
    ∀ done, Settled py done → Settled py (jsonableEntry py entry done) := by
  intro done hdone
  obtain ⟨key, value⟩ := entry
  rw [loadableEntry, Bool.and_eq_true] at h
  exact hdone.setStr (isString_key hpy h.1) (zero_notMem_storable _) (jsonable_jsonable hpy value h.2)
termination_by structural entry

end

end Settled

end Coppermind.Notes
