import Coppermind.Schema.Keys

/-!
# What the schema requires, and what it says so of

`required_keys` and `validate_frontmatter` decide for themselves what satisfies a requirement, and
`note_date` what day a note has.  They agree but for a date that is left to the legacy `time`: the
exemption looks at its day and not at its validity, and only a key required outright has it.
-/

namespace Coppermind.Schema

open Coppermind.Lib Coppermind.Frontmatter

section Statement

variable (py : Python) (schema : FrontmatterSchema) (frontmatter : Entries)

/-- `repr` of a text starts with a quotation mark. -/
def QuotedRepr : Prop :=
  ∀ value, (str? value).isSome = true → ∃ rest, py.repr value = 39 :: rest ∨ py.repr value = 34 :: rest

/-- A message that a key is required. -/
def RequiredMessage (key : Text) (message : PyStr) : Prop :=
  message = PyStr.ofText key ++ PyStr.lit ": required" ∨
    PyStr.ofText key ++ PyStr.lit ": required when " <+: message

/-- `validate_frontmatter` reports a key as required. -/
def ReportsRequired (key : Text) : Prop :=
  ∃ problem ∈ schema.problems py frontmatter, problem.1 = key ∧ RequiredMessage key problem.2

/-- No value: none at all, or an account that `account_list` reads as empty. -/
def NoValue (key : Text) : Prop :=
  present? frontmatter key = none ∨
    key = schema.roles.accountKey ∧ accountList (frontmatter.get? key) = []

/-- The date key has kind `date` and is required, outright or by a condition the note meets. -/
def DateRequired : Prop :=
  ∃ definition ∈ schema.keys, definition.name = schema.roles.dateKey ∧ definition.kind = .date ∧
    (definition.required = true ∨ requires definition frontmatter = true)

/-- The schema, the validation and the day of a note agree. -/
structure Agrees : Prop where
  day : DateRequired schema frontmatter → schema.problems py frontmatter = [] →
    (noteDate py schema.roles.dateKey frontmatter).isSome = true
  required : ∀ key, ReportsRequired py schema frontmatter key ↔
    key ∈ schema.requiredKeys py frontmatter ∧ NoValue schema frontmatter key

/-- What the loop of `_problems` finds a key to hold. -/
inductive Reading where
  | empty
  | refused (problem : Text × PyStr)
  /-- An account of texts, which is not checked further. -/
  | account
  | given (value : Value)

def reading (key : Text) : Reading :=
  match present? frontmatter key with
  | none => .empty
  | some value =>
    if key = schema.roles.accountKey then
      match FrontmatterSchema.checkAccount key value with
      | .refused problem => .refused problem
      | .blank => .empty
      | .fine => .account
    else .given value

/-- One turn of the loop of `_problems`. -/
def definitionProblems (definition : KeyDefinition) : List (Text × PyStr) :=
  match reading schema frontmatter definition.name with
  | .empty => schema.keyProblems py (FrontmatterSchema.dateSatisfiedByTime py frontmatter) frontmatter
      definition none
  | .refused problem => [problem]
  | .account => []
  | .given value => schema.keyProblems py (FrontmatterSchema.dateSatisfiedByTime py frontmatter)
      frontmatter definition (some value)

theorem problems_eq : schema.problems py frontmatter =
    schema.keys.flatMap (definitionProblems py schema frontmatter) ++
      schema.kindProblem frontmatter := by
  unfold FrontmatterSchema.problems
  dsimp only
  congr 1
  apply List.flatMap_congr
  intro definition _
  unfold definitionProblems reading
  cases hpresent : present? frontmatter definition.name with
  | none => rfl
  | some value =>
    simp only
    split
    · cases FrontmatterSchema.checkAccount definition.name value <;> rfl
    · rfl

end Statement

section Lookups

variable {py : Python} {schema : FrontmatterSchema}

theorem present?_of_get? {entries : Entries} {k : Text} {value : Value}
    (h : entries.get? k = some value) (hvalue : value ≠ .null) : present? entries k = some value := by
  unfold present?
  rw [h]
  cases value <;> first | rfl | exact absurd rfl hvalue

theorem get?_of_present? {entries : Entries} {k : Text} {value : Value}
    (h : present? entries k = some value) : entries.get? k = some value := by
  unfold present? at h
  split at h
  · cases h
  · cases h
  · next hget => rw [hget, h]

theorem mem_requiredKeys {k : Text} {entries : Entries} :
    k ∈ schema.requiredKeys py entries ↔ ∃ definition ∈ schema.keys,
      (definition.required = true ∨ requires definition entries = true) ∧
      ¬ (definition.name = schema.roles.dateKey ∧
        FrontmatterSchema.dateSatisfiedByTime py entries = true) ∧ definition.name = k := by
  simp only [FrontmatterSchema.requiredKeys, List.mem_map, List.mem_filter, Bool.and_eq_true,
    Bool.or_eq_true, Bool.not_eq_true', Bool.and_eq_false_iff, beq_eq_false_iff_ne, and_assoc,
    not_and_or, Bool.not_eq_true, ne_eq]

end Lookups

section Messages

/-- The texts of `problem` that are about something else than a requirement. -/
theorem not_requiredMessage {key : Text} {rest : PyStr} (h : rest.head? ≠ some 114) :
    ¬ RequiredMessage key (PyStr.ofText key ++ PyStr.lit ": " ++ rest) := by
  rintro (heq | hbegins)
  · rw [List.append_assoc] at heq
    have hrest := List.append_cancel_left heq
    have hsplit : PyStr.lit ": required" = PyStr.lit ": " ++ PyStr.lit "required" := by decide
    rw [hsplit] at hrest
    rw [List.append_cancel_left hrest] at h
    exact h (by decide)
  · rw [List.append_assoc, List.prefix_append_right_inj] at hbegins
    have hsplit : PyStr.lit ": required when " = PyStr.lit ": " ++ PyStr.lit "required when " := by
      decide
    rw [hsplit, List.prefix_append_right_inj] at hbegins
    obtain ⟨t, rfl⟩ := hbegins
    exact h (by rw [List.head?_append_of_ne_nil _ (by decide)]; decide)

variable {py : Python} {schema : FrontmatterSchema} {frontmatter : Entries}

theorem requiredMessage_required (key : Text) : RequiredMessage key (problem key "required").2 := by
  left
  rw [problem, List.append_assoc]
  rfl

theorem not_requiredMessage_problem {key : Text} {message : String}
    (h : (PyStr.lit message).head? ≠ some 114) : ¬ RequiredMessage key (problem key message).2 :=
  not_requiredMessage h

/-- A value that is there is never reported as required. -/
theorem checkValue_messages (hrepr : QuotedRepr py) (definition : KeyDefinition) (value : Value) :
    ∀ p ∈ checkValue py definition value,
      p.1 = definition.name ∧ ¬ RequiredMessage definition.name p.2 := by
  have hproblem : ∀ (message : String), (PyStr.lit message).head? ≠ some 114 →
      ∀ p ∈ [problem definition.name message],
        p.1 = definition.name ∧ ¬ RequiredMessage definition.name p.2 := by
    intro message hmessage p hp
    rw [List.mem_singleton.1 hp]
    exact ⟨rfl, not_requiredMessage_problem hmessage⟩
  unfold checkValue
  dsimp only
  split
  · split
    · nofun
    · exact hproblem _ (by decide)
  · split
    · nofun
    · exact hproblem _ (by decide)
  · split
    · nofun
    · exact hproblem _ (by decide)
  · split
    · exact hproblem _ (by decide)
    · split
      · nofun
      · exact hproblem _ (by decide)
  · split
    · nofun
    · exact hproblem _ (by decide)
  · split
    · exact hproblem _ (by decide)
    · next text htext =>
      split
      · intro p hp
        rw [List.mem_singleton.1 hp]
        refine ⟨rfl, ?_⟩
        have hshown : (str? (shownText value text)).isSome = true := by
          unfold checkedText at htext
          unfold shownText
          split
          · rfl
          · rfl
          · split at htext
            · simp_all
            · simp_all
            · rw [htext]
              rfl
        obtain ⟨rest, hquote | hquote⟩ := hrepr _ hshown
        · simp only [hquote, List.append_assoc]
          rw [← List.append_assoc]
          exact not_requiredMessage (by simp)
        · simp only [hquote, List.append_assoc]
          rw [← List.append_assoc]
          exact not_requiredMessage (by simp)
      · nofun

theorem checkAccount_refused {key : Text} {value : Value} {p : Text × PyStr}
    (h : FrontmatterSchema.checkAccount key value = .refused p) :
    p.1 = key ∧ ¬ RequiredMessage key p.2 := by
  unfold FrontmatterSchema.checkAccount at h
  split at h
  · split at h
    · cases h
      exact ⟨rfl, not_requiredMessage_problem (by decide)⟩
    · split at h <;> cases h
  · split at h
    · cases h
      exact ⟨rfl, not_requiredMessage_problem (by decide)⟩
    · split at h <;> cases h

theorem kindProblem_messages : ∀ p ∈ schema.kindProblem frontmatter,
    p.1 = schema.kindKey ∧ ¬ RequiredMessage schema.kindKey p.2 := by
  unfold FrontmatterSchema.kindProblem
  split
  · split
    · intro p hp
      rw [List.mem_singleton.1 hp]
      exact ⟨rfl, not_requiredMessage_problem (by decide +kernel)⟩
    · nofun
  · nofun

/-- An absent value that a definition asks for. -/
def Asked (py : Python) (schema : FrontmatterSchema) (frontmatter : Entries)
    (definition : KeyDefinition) : Prop :=
  definition.required = true ∧ ¬ (definition.name = schema.roles.dateKey ∧
      FrontmatterSchema.dateSatisfiedByTime py frontmatter = true) ∨
    definition.required = false ∧ requires definition frontmatter = true

theorem keyProblems_none (definition : KeyDefinition) :
    (∀ p ∈ schema.keyProblems py (FrontmatterSchema.dateSatisfiedByTime py frontmatter) frontmatter
        definition none, p.1 = definition.name ∧ RequiredMessage definition.name p.2) ∧
      (schema.keyProblems py (FrontmatterSchema.dateSatisfiedByTime py frontmatter) frontmatter
        definition none = [] ↔ ¬ Asked py schema frontmatter definition) := by
  unfold FrontmatterSchema.keyProblems Asked
  dsimp only
  by_cases hrequired : definition.required = true
  · rw [if_pos hrequired]
    by_cases hexempt : definition.name = schema.roles.dateKey ∧
        FrontmatterSchema.dateSatisfiedByTime py frontmatter = true
    · rw [if_pos hexempt]
      exact ⟨nofun, by simp [hrequired, hexempt.1, hexempt.2]⟩
    · rw [if_neg hexempt]
      refine ⟨?_, by simp [hrequired, hexempt]⟩
      intro p hp
      rw [List.mem_singleton.1 hp]
      exact ⟨rfl, requiredMessage_required _⟩
  · rw [if_neg hrequired]
    by_cases hasked : requires definition frontmatter = true
    · rw [if_pos hasked]
      refine ⟨?_, by simp [hrequired, hasked]⟩
      intro p hp
      rw [List.mem_singleton.1 hp]
      refine ⟨rfl, .inr ?_⟩
      exact ⟨PyStr.ofText (definition.requiredWhen.getD []) ++ (PyStr.lit " is one of " ++
        commaJoin definition.requiredWhenValues), by simp only [List.append_assoc]⟩
    · rw [if_neg hasked]
      exact ⟨nofun, by simp [hrequired, hasked]⟩

theorem reading_refused {key : Text} {p : Text × PyStr}
    (h : reading schema frontmatter key = .refused p) :
    key = schema.roles.accountKey ∧ ∃ value, present? frontmatter key = some value ∧
      FrontmatterSchema.checkAccount key value = .refused p := by
  unfold reading at h
  split at h
  · cases h
  · next value hpresent =>
    split at h
    · next hkey =>
      split at h
      · next hcheck =>
        cases h
        exact ⟨hkey, value, hpresent, hcheck⟩
      · cases h
      · cases h
    · cases h

theorem definitionProblems_name (hrepr : QuotedRepr py) (definition : KeyDefinition) :
    ∀ p ∈ definitionProblems py schema frontmatter definition, p.1 = definition.name := by
  unfold definitionProblems
  cases hreading : reading schema frontmatter definition.name with
  | empty => exact fun p hp => ((keyProblems_none definition).1 p hp).1
  | refused problem =>
    intro p hp
    obtain ⟨-, value, -, hcheck⟩ := reading_refused hreading
    rw [List.mem_singleton.1 hp]
    exact (checkAccount_refused hcheck).1
  | account => nofun
  | given value => exact fun p hp => (checkValue_messages hrepr definition value p hp).1

/-- **A key is reported as required** where it is read as empty and a definition asks for it. -/
theorem reportsRequired_iff (hrepr : QuotedRepr py) (key : Text) :
    ReportsRequired py schema frontmatter key ↔ reading schema frontmatter key = .empty ∧
      ∃ definition ∈ schema.keys, definition.name = key ∧ Asked py schema frontmatter definition := by
  unfold ReportsRequired
  constructor
  · rintro ⟨p, hp, rfl, hmessage⟩
    rw [problems_eq, List.mem_append, List.mem_flatMap] at hp
    obtain ⟨definition, hmem, hp⟩ | hp := hp
    · have hname := definitionProblems_name hrepr definition p hp
      rw [hname] at hmessage ⊢
      unfold definitionProblems at hp
      cases hreading : reading schema frontmatter definition.name with
      | empty =>
        rw [hreading] at hp
        refine ⟨rfl, definition, hmem, rfl, ?_⟩
        by_contra hnot
        rw [(keyProblems_none definition).2.2 hnot] at hp
        cases hp
      | refused problem =>
        rw [hreading] at hp
        obtain ⟨-, value, -, hcheck⟩ := reading_refused hreading
        rw [List.mem_singleton.1 hp] at hmessage
        exact absurd hmessage (checkAccount_refused hcheck).2
      | account =>
        rw [hreading] at hp
        cases hp
      | given value =>
        rw [hreading] at hp
        exact absurd hmessage (checkValue_messages hrepr definition value p hp).2
    · obtain ⟨hname, hnot⟩ := kindProblem_messages p hp
      rw [hname] at hmessage
      exact absurd hmessage hnot
  · rintro ⟨hreading, definition, hmem, rfl, hasked⟩
    have hproblems : definitionProblems py schema frontmatter definition = schema.keyProblems py
        (FrontmatterSchema.dateSatisfiedByTime py frontmatter) frontmatter definition none := by
      rw [definitionProblems, hreading]
    obtain ⟨hall, hnil⟩ := @keyProblems_none py schema frontmatter definition
    obtain ⟨p, rest, hp⟩ := List.exists_cons_of_ne_nil fun h => hnil.1 h hasked
    have hmemp : p ∈ definitionProblems py schema frontmatter definition := by
      rw [hproblems, hp]
      exact List.mem_cons_self
    refine ⟨p, ?_, (hall p (hproblems ▸ hmemp)).1, (hall p (hproblems ▸ hmemp)).2⟩
    rw [problems_eq]
    exact List.mem_append_left _ (List.mem_flatMap.2 ⟨definition, hmem, hmemp⟩)

end Messages

section Readings

variable {py : Python} {schema : FrontmatterSchema} {frontmatter : Entries}

/-- The account is of a type that is refused, and `account_list` reads it as empty. -/
def MisreadAccount (py : Python) (schema : FrontmatterSchema) (frontmatter : Entries) : Prop :=
  schema.roles.accountKey ∈ schema.requiredKeys py frontmatter ∧
    (∃ p, reading schema frontmatter schema.roles.accountKey = .refused p) ∧
    accountList (frontmatter.get? schema.roles.accountKey) = []

/-- The date is left to the time, and a definition of it that a condition switches on is not. -/
def ConditionalDate (py : Python) (schema : FrontmatterSchema) (frontmatter : Entries) : Prop :=
  FrontmatterSchema.dateSatisfiedByTime py frontmatter = true ∧
    reading schema frontmatter schema.roles.dateKey = .empty ∧
    ∃ definition ∈ schema.keys, definition.name = schema.roles.dateKey ∧
      definition.required = false ∧ requires definition frontmatter = true

/-- Nothing is wrong with another key, and a date that is asked for is left to a time that has a day
but is not valid, or holds an account in its place. -/
def Undated (py : Python) (schema : FrontmatterSchema) (frontmatter : Entries) : Prop :=
  DateRequired schema frontmatter ∧
    (∀ definition ∈ schema.keys, definition.name ≠ schema.roles.dateKey →
      definitionProblems py schema frontmatter definition = []) ∧
    schema.kindProblem frontmatter = [] ∧
    (reading schema frontmatter schema.roles.dateKey = .empty ∧
        FrontmatterSchema.dateSatisfiedByTime py frontmatter = true ∧
        (parseNoteTime py (frontmatter.get? "time".toList)).valid = false ∧
        (∀ definition ∈ schema.keys, definition.name = schema.roles.dateKey →
          definition.required = false → requires definition frontmatter = false) ∨
      reading schema frontmatter schema.roles.dateKey = .account ∧
        asDate py (frontmatter.get? schema.roles.dateKey) = none ∧
        asDate py (frontmatter.get? "time".toList) = none)

theorem checkAccount_cases (key : Text) (value : Value) :
    (∃ p, FrontmatterSchema.checkAccount key value = .refused p) ∨
      FrontmatterSchema.checkAccount key value = .blank ∧ accountList (some value) = [] ∨
      FrontmatterSchema.checkAccount key value = .fine ∧ accountList (some value) ≠ [] := by
  unfold FrontmatterSchema.checkAccount
  split
  · split
    · exact .inl ⟨_, rfl⟩
    · split
      · next h => exact .inr (.inl ⟨rfl, h⟩)
      · next h => exact .inr (.inr ⟨rfl, h⟩)
  · split
    · exact .inl ⟨_, rfl⟩
    · split
      · next h => exact .inr (.inl ⟨rfl, h⟩)
      · next h => exact .inr (.inr ⟨rfl, h⟩)

/-- No value is to be read as empty, or to be an account of a refused type that reads as empty. -/
theorem noValue_iff (key : Text) : NoValue schema frontmatter key ↔
    reading schema frontmatter key = .empty ∨ key = schema.roles.accountKey ∧
      (∃ p, reading schema frontmatter key = .refused p) ∧ accountList (frontmatter.get? key) = [] := by
  unfold NoValue reading
  cases hpresent : present? frontmatter key with
  | none => simp
  | some value =>
    have hget := get?_of_present? hpresent
    simp only [reduceCtorEq, false_or, hget]
    by_cases hkey : key = schema.roles.accountKey
    · simp only [hkey, true_and]
      obtain ⟨p, hcheck⟩ | ⟨hcheck, hlist⟩ | ⟨hcheck, hlist⟩ :=
        checkAccount_cases schema.roles.accountKey value
      · simp [hcheck]
      · simp [hcheck, hlist]
      · simp [hcheck, hlist]
    · simp [hkey]

theorem noteDate_eq_none_iff (key : Text) : noteDate py key frontmatter = none ↔
    asDate py (frontmatter.get? key) = none ∧ asDate py (frontmatter.get? "time".toList) = none := by
  unfold noteDate asDate
  dsimp only
  generalize parseNoteTime py (frontmatter.get? key) = explicit
  generalize parseNoteTime py (frontmatter.get? "time".toList) = parsed
  cases explicit.valid
  · simp
  · cases explicit.dateValue <;> simp

theorem all_isSpace_of_stripStr {s : Text} (h : stripStr (PyStr.ofText s) = []) :
    ∀ c ∈ s, Text.isSpace c = true := by
  unfold stripStr at h
  rw [List.rdropWhile_eq_nil_iff] at h
  have hnil : (PyStr.ofText s).dropWhile isWhite = [] := by
    by_contra hne
    have hhead := List.head_dropWhile_not isWhite hne
    rw [h _ (List.head_mem hne)] at hhead
    cases hhead
  rw [List.dropWhile_eq_nil_iff] at hnil
  intro c hc
  have hwhite := hnil c.toNat (List.mem_map_of_mem hc)
  rwa [isWhite, Char.ofNat_toNat] at hwhite

/-- An account of no names is no day. -/
theorem asDate_of_blank {key : Text} {value : Value}
    (h : FrontmatterSchema.checkAccount key value = .blank) : asDate py (some value) = none := by
  have hlist : accountList (some value) = [] := by
    obtain ⟨p, hcheck⟩ | ⟨-, hlist⟩ | ⟨hcheck, -⟩ := checkAccount_cases key value
    · rw [h] at hcheck
      cases hcheck
    · exact hlist
    · rw [h] at hcheck
      cases hcheck
  unfold asDate
  cases value with
  | str s =>
    have hstrip : Text.strip s = [] := by
      have hblank : stripStr (PyStr.ofText s) = [] := by
        simpa [accountList, str?] using hlist
      have hnil : s.dropWhile Text.isSpace = [] :=
        List.dropWhile_eq_nil_iff.2 (all_isSpace_of_stripStr hblank)
      rw [Text.strip, hnil]
      rfl
    simp [parseNoteTime, parseNoteTimeText, hstrip]
  | date d => cases h
  | datetime d => cases h
  | timestamp d => cases h
  | _ => rfl

theorem asDate_of_empty {key : Text} (h : reading schema frontmatter key = .empty) :
    asDate py (frontmatter.get? key) = none := by
  unfold reading at h
  split at h
  · next hnone =>
    unfold present? at hnone
    split at hnone
    · next hget => rw [hget]; rfl
    · next hget => rw [hget]; rfl
    · cases hnone
  · next value hpresent =>
    split at h
    · split at h
      · cases h
      · next hcheck =>
        rw [get?_of_present? hpresent]
        exact asDate_of_blank hcheck
      · cases h
    · cases h

/-- **Requirements**: what is required is what is reported, but for a date that a condition asks for
and the time satisfies, and for an account of a refused type. -/
theorem required_iff (hrepr : QuotedRepr py) :
    (∀ key, ReportsRequired py schema frontmatter key ↔
      key ∈ schema.requiredKeys py frontmatter ∧ NoValue schema frontmatter key) ↔
    ¬ ConditionalDate py schema frontmatter ∧ ¬ MisreadAccount py schema frontmatter := by
  simp only [reportsRequired_iff hrepr, noValue_iff]
  constructor
  · intro h
    refine ⟨?_, ?_⟩
    · rintro ⟨hsatisfied, hreading, definition, hmem, hname, hrequired, hasked⟩
      obtain ⟨hkey, -⟩ := (h schema.roles.dateKey).1
        ⟨hreading, definition, hmem, hname, .inr ⟨hrequired, hasked⟩⟩
      obtain ⟨other, -, -, hexempt, hother⟩ := mem_requiredKeys.1 hkey
      exact hexempt ⟨hother, hsatisfied⟩
    · rintro ⟨hkey, ⟨p, hrefused⟩, hlist⟩
      obtain ⟨hempty, -⟩ := (h schema.roles.accountKey).2 ⟨hkey, .inr ⟨rfl, ⟨p, hrefused⟩, hlist⟩⟩
      rw [hrefused] at hempty
      cases hempty
  · rintro ⟨hconditional, hmisread⟩ key
    constructor
    · rintro ⟨hreading, definition, hmem, rfl, hasked⟩
      refine ⟨mem_requiredKeys.2 ⟨definition, hmem, ?_, ?_, rfl⟩, .inl hreading⟩
      · exact hasked.imp (·.1) (·.2)
      · rintro ⟨hname, hsatisfied⟩
        obtain ⟨-, hexempt⟩ | ⟨hrequired, hrequires⟩ := hasked
        · exact hexempt ⟨hname, hsatisfied⟩
        · rw [hname] at hreading
          exact hconditional ⟨hsatisfied, hreading, definition, hmem, hname, hrequired, hrequires⟩
    · rintro ⟨hkey, hreading | ⟨rfl, hrefused, hlist⟩⟩
      · obtain ⟨definition, hmem, hasked, hexempt, rfl⟩ := mem_requiredKeys.1 hkey
        refine ⟨hreading, definition, hmem, rfl, ?_⟩
        by_cases hrequired : definition.required = true
        · exact .inl ⟨hrequired, hexempt⟩
        · exact .inr ⟨by simpa using hrequired, hasked.resolve_left hrequired⟩
      · exact absurd ⟨hkey, hrefused, hlist⟩ hmisread

/-- **The day**: a note in which nothing is wrong has one, but where its date is left to a time with
an offset. -/
theorem day_iff :
    (DateRequired schema frontmatter → schema.problems py frontmatter = [] →
      (noteDate py schema.roles.dateKey frontmatter).isSome = true) ↔
    ¬ Undated py schema frontmatter := by
  have hproblems : schema.problems py frontmatter = [] ↔
      (∀ definition ∈ schema.keys, definitionProblems py schema frontmatter definition = []) ∧
        schema.kindProblem frontmatter = [] := by
    rw [problems_eq, List.append_eq_nil_iff, List.flatMap_eq_nil_iff]
  constructor
  · rintro h ⟨hrequired, hothers, hkind, hdate⟩
    have hall : ∀ definition ∈ schema.keys, definitionProblems py schema frontmatter definition = [] := by
      intro definition hmem
      by_cases hname : definition.name = schema.roles.dateKey
      · obtain ⟨hreading, hsatisfied, -, hnone⟩ | ⟨hreading, -, -⟩ := hdate
        · rw [definitionProblems, hname, hreading]
          refine (keyProblems_none definition).2.2 ?_
          rintro (⟨-, hexempt⟩ | ⟨hoptional, hasked⟩)
          · exact hexempt ⟨hname, hsatisfied⟩
          · rw [hnone definition hmem hname hoptional] at hasked
            cases hasked
        · rw [definitionProblems, hname, hreading]
      · exact hothers definition hmem hname
    have hday := h hrequired (hproblems.2 ⟨hall, hkind⟩)
    have hnone : noteDate py schema.roles.dateKey frontmatter = none := by
      rw [noteDate_eq_none_iff]
      obtain ⟨hreading, -, hvalid, -⟩ | ⟨-, hnone⟩ := hdate
      · refine ⟨asDate_of_empty hreading, ?_⟩
        unfold asDate
        dsimp only
        rw [hvalid]
        rfl
      · exact hnone
    rw [hnone] at hday
    cases hday
  · intro hundated hrequired hnil
    by_contra hday
    rw [Bool.not_eq_true, Option.isSome_eq_false_iff, Option.isNone_iff_eq_none,
      noteDate_eq_none_iff] at hday
    obtain ⟨hall, hkind⟩ := hproblems.1 hnil
    apply hundated
    refine ⟨hrequired, fun definition hmem _ => hall definition hmem, hkind, ?_⟩
    obtain ⟨definition, hmem, hname, hdate, hasked⟩ := hrequired
    have hpasses := hall definition hmem
    unfold definitionProblems at hpasses
    rw [hname] at hpasses
    cases hreading : reading schema frontmatter schema.roles.dateKey with
    | empty =>
      have hunasked : ∀ other ∈ schema.keys, other.name = schema.roles.dateKey →
          ¬ Asked py schema frontmatter other := by
        intro other hother hsame
        have hnone := hall other hother
        rw [definitionProblems, hsame, hreading] at hnone
        exact (keyProblems_none other).2.1 hnone
      have hnot := hunasked definition hmem hname
      unfold Asked at hnot
      push Not at hnot
      have hrequired : definition.required = true := by
        by_contra hoptional
        rw [Bool.not_eq_true] at hoptional
        exact hnot.2 hoptional (hasked.resolve_left (by rw [hoptional]; exact Bool.false_ne_true))
      have hsatisfied := (hnot.1 hrequired).2
      refine .inl ⟨rfl, hsatisfied, ?_, ?_⟩
      · have htime := hday.2
        unfold asDate at htime
        dsimp only at htime
        unfold FrontmatterSchema.dateSatisfiedByTime at hsatisfied
        by_contra hvalid
        rw [Bool.not_eq_false] at hvalid
        rw [if_pos hvalid] at htime
        rw [htime] at hsatisfied
        cases hsatisfied
      · intro other hother hsame hoptional
        by_contra hrequires
        exact hunasked other hother hsame (.inr ⟨hoptional, by simpa using hrequires⟩)
    | refused problem =>
      rw [hreading] at hpasses
      cases hpasses
    | account => exact .inr ⟨rfl, hday⟩
    | given value =>
      rw [hreading] at hpasses
      have hget : frontmatter.get? schema.roles.dateKey = some value := by
        unfold reading at hreading
        split at hreading
        · cases hreading
        · next given hpresent =>
          split at hreading
          · split at hreading <;> cases hreading
          · cases hreading
            exact get?_of_present? hpresent
      have hnone := hday.1
      rw [hget] at hnone
      simp only [FrontmatterSchema.keyProblems, checkValue, hdate] at hpasses
      split at hpasses
      · cases hpasses
      · split at hpasses
        · next hisDate =>
          unfold isDate at hisDate
          rw [Bool.and_eq_true] at hisDate
          unfold asDate at hnone
          dsimp only at hnone
          rw [if_pos hisDate.1] at hnone
          rw [hnone] at hisDate
          cases hisDate.2
        · cases hpasses

/-- **Agreement** of the schema, the validation and the day of a note. -/
theorem agrees_iff (hrepr : QuotedRepr py) : Agrees py schema frontmatter ↔
    ¬ Undated py schema frontmatter ∧ ¬ ConditionalDate py schema frontmatter ∧
      ¬ MisreadAccount py schema frontmatter := by
  rw [← day_iff, ← required_iff hrepr]
  exact ⟨fun h => ⟨h.day, h.required⟩, fun h => ⟨h.1, h.2⟩⟩

end Readings

section Sample

/-- A morning, local and with an offset. -/
def localMorning : Text := "2026-07-31T09:30:00".toList

def offsetMorning : Text := "2026-07-31T09:30:00+02:00".toList

/-- A library that reads the two. -/
def morningPython : Python where
  str _ := []
  repr value := 39 :: ((str? value).getD [] ++ [39])
  isoformat _ := []
  casefold := id
  dateFromIso _ := none
  datetimeFromIso text :=
    if text = localMorning then some ⟨⟨2026, 7, 31⟩, 9, 30, 0, 0, none⟩
    else if text = offsetMorning then some ⟨⟨2026, 7, 31⟩, 9, 30, 0, 0, some 7200⟩
    else none
  timeFromIso _ := none

theorem morningPython_quoted : QuotedRepr morningPython := fun _ _ => ⟨_, .inl rfl⟩

/-- A schema whose date is required outright, or of a meeting only. -/
def meetingSchema (outright : Bool) : FrontmatterSchema where
  keys :=
    { name := "date".toList, kind := .date, required := outright, requiredWhen := some "type".toList
      requiredWhenValues := ["meeting".toList] } ::
    ["id", "type", "context", "account", "reviewed", "sources", "tags", "schema_version"].map
      fun name => { name := name.toList }
  roles :=
    { idKey := "id".toList, dateKey := "date".toList, typeKey := "type".toList
      contextKey := "context".toList, accountKey := "account".toList
      reviewedKey := "reviewed".toList, sourcesKey := "sources".toList, tagsKey := "tags".toList
      schemaVersionKey := "schema_version".toList }

def meetingNote (time : Text) : Entries :=
  [(.str "type".toList, .str "meeting".toList), (.str "time".toList, .str time)]

theorem meeting_agrees : Agrees morningPython (meetingSchema true) (meetingNote localMorning) := by
  refine (agrees_iff morningPython_quoted).2 ⟨?_, ?_, ?_⟩
  · rintro ⟨-, -, -, ⟨-, -, hvalid, -⟩ | ⟨hreading, -, -⟩⟩
    · revert hvalid
      decide +kernel
    · have hempty : reading (meetingSchema true) (meetingNote localMorning) "date".toList = .empty := rfl
      exact absurd (hempty.symm.trans hreading) nofun
  · rintro ⟨-, -, definition, hmem, hname, hrequired, -⟩
    obtain rfl | hmem := List.mem_cons.1 hmem
    · cases hrequired
    · obtain ⟨name, hname', rfl⟩ := List.mem_map.1 hmem
      exact (by decide : ∀ name ∈ ["id", "type", "context", "account", "reviewed", "sources", "tags",
        "schema_version"], String.toList name ≠ "date".toList) name hname' hname
  · rintro ⟨hkey, -, -⟩
    revert hkey
    decide +kernel

/-- A time with an offset leaves a note that passes without a day, and a date that only a meeting
needs is reported as required where it is not. -/
theorem meeting_disagrees :
    (DateRequired (meetingSchema true) (meetingNote offsetMorning) ∧
      (meetingSchema true).problems morningPython (meetingNote offsetMorning) = [] ∧
      noteDate morningPython "date".toList (meetingNote offsetMorning) = none) ∧
    (ReportsRequired morningPython (meetingSchema false) (meetingNote localMorning) "date".toList ∧
      "date".toList ∉ (meetingSchema false).requiredKeys morningPython (meetingNote localMorning)) ∧
    ¬ Agrees morningPython (meetingSchema true) (meetingNote offsetMorning) ∧
    ¬ Agrees morningPython (meetingSchema false) (meetingNote localMorning) := by
  have hrequired : DateRequired (meetingSchema true) (meetingNote offsetMorning) :=
    ⟨_, List.mem_cons_self, rfl, rfl, .inl rfl⟩
  have hpasses : (meetingSchema true).problems morningPython (meetingNote offsetMorning) = [] := by
    decide +kernel
  have hday : noteDate morningPython "date".toList (meetingNote offsetMorning) = none := by
    decide +kernel
  have hreports : ReportsRequired morningPython (meetingSchema false) (meetingNote localMorning)
      "date".toList :=
    (reportsRequired_iff morningPython_quoted _).2
      ⟨rfl, _, List.mem_cons_self, rfl, .inr ⟨rfl, by decide⟩⟩
  have hkeys : "date".toList ∉
      (meetingSchema false).requiredKeys morningPython (meetingNote localMorning) := by
    decide +kernel
  refine ⟨⟨hrequired, hpasses, hday⟩, ⟨hreports, hkeys⟩, ?_, ?_⟩
  · intro h
    have hsome := h.day hrequired hpasses
    change (noteDate morningPython "date".toList _).isSome = true at hsome
    rw [hday] at hsome
    cases hsome
  · exact fun h => hkeys ((h.required _).1 hreports).1

end Sample

end Coppermind.Schema
