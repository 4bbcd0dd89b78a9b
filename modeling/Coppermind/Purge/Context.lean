import Coppermind.Purge.Store

/-!
# What the context service keeps of a note

Three records with a member for a note, and three folders with a file for one.  `EntityService.purge`
takes the listed notes out of all of them; a record that it writes back keeps every other member,
the candidates of the calendar follow-ups apart, which are never read.  `Forgetting` is what a cut
leaves: each record and each file is as it was, or is what the purge makes of it.
-/

namespace Coppermind.Purge

open Coppermind.Lib

section Reading

mutual

/-- A value as `ijson` reads it and `json.dumps` writes it back: a float is the text of its
decimal. -/
def decimals (decimal : PyStr → PyStr) : Json → Json
  | .float literal => .str (decimal literal)
  | .arr items => .arr (decimalItems decimal items)
  | .obj members => .obj (decimalMembers decimal members)
  | value => value
termination_by structural value => value

def decimalItems (decimal : PyStr → PyStr) : List Json → List Json
  | [] => []
  | item :: items => decimals decimal item :: decimalItems decimal items
termination_by structural items => items

def decimalMembers (decimal : PyStr → PyStr) : List (PyStr × Json) → List (PyStr × Json)
  | [] => []
  | member :: members => decimalMember decimal member :: decimalMembers decimal members
termination_by structural members => members

def decimalMember (decimal : PyStr → PyStr) : PyStr × Json → PyStr × Json
  | (key, value) => (key, decimals decimal value)
termination_by structural member => member

end

variable (env : Env)

def candidatesKey : PyStr := PyStr.lit "candidates"

/-- A member of `calendar-followups` as `read` gives it. -/
def followup : PyStr × Json → Except Raised (PyStr × Json)
  | (key, .obj fields) =>
    .ok (key, .obj (decimalMembers env.decimal (fields.filter (·.1 ≠ candidatesKey))))
  | _ => .error .attributeError

/-- `read(name, {})` of a record, whose members a purge then goes through. -/
def Context.read (c : Context) (book : Book) : Except Raised (List (PyStr × Json)) :=
  match c.books book with
  | none => .ok []
  | some none => .error .valueError
  | some (some (.obj members)) =>
    if book = .calendarFollowups then members.mapM (followup env) else .ok members
  -- `ijson` finds no members in a document that is no object
  | some (some _) => if book = .calendarFollowups then .ok [] else .error .attributeError

/-- The note that a correction of an association names, `json.loads(…).get("note_id")`. -/
def correctionNote : Option Json → Except Raised (Option PyStr)
  | none => .error .valueError
  | some (.obj members) =>
    match Json.get? members (PyStr.lit "note_id") with
    | some (.str id) => .ok (some id)
    | some (.arr _) | some (.obj _) => .error .typeError
    | _ => .ok none
  | some _ => .error .attributeError

/-- One file of `jobs/`. -/
def Context.readJob (c : Context) (name : PyStr) : Except Raised EnrichmentJob :=
  match (c.jobs.lookup name).join with
  | some job => .ok job
  | none => .error .valueError

/-- `jobs()`, the files in the order of their names. -/
def Context.readJobs (c : Context) : Except Raised (List EnrichmentJob) :=
  (c.jobs.keys.insertionSort (· ≤ ·)).mapM c.readJob

end Reading

namespace Context

variable (c : Context)

/-- `write` of a record. -/
def writeBook (book : Book) (members : List (PyStr × Json)) : Context :=
  { c with books := Function.update c.books book (some (some (.obj members))) }

def dropCompletion (id : PyStr) : Context := { c with completions := c.completions.erase id }

def dropCorrection (name : PyStr) : Context := { c with corrections := c.corrections.erase name }

def dropJob (name : PyStr) : Context where
  books := c.books
  dossiers := c.dossiers
  completions := c.completions
  corrections := c.corrections
  jobs := c.jobs.erase name
  jobs_filed := by
    intro name' job hjob
    apply c.jobs_filed name' job
    by_cases hname : name' = name
    · subst hname
      rw [AList.lookup_erase] at hjob
      cases hjob
    · rwa [AList.lookup_erase_ne hname] at hjob

/-- `write("dossiers", {})`. -/
def emptyDossiers : Context := { c with dossiers := some (some (.obj [])) }

end Context

section Forgetting

/-- A correction of one of the notes. -/
def correctsOne (ids : List PyStr) (found : Option Json) : Bool :=
  match correctionNote found with
  | .ok (some id) => id ∈ ids
  | _ => false

/-- A job of one of the notes. -/
def jobOfOne (ids : List PyStr) (found : Option EnrichmentJob) : Bool :=
  found.any (·.noteId ∈ ids)

/-- The members of the other notes. -/
def without (ids : List PyStr) (members : List (PyStr × Json)) : List (PyStr × Json) :=
  members.filter (·.1 ∉ ids)

/-- The record `book` of `c'` is that of `c` as it is read, without the notes. -/
def Rewritten (env : Env) (ids : List PyStr) (c c' : Context) (book : Book) : Prop :=
  ∃ members, c.read env book = .ok members ∧
    c'.books book = some (some (.obj (without ids members)))

/-- The records `c'` are `c` with some of what is there of the notes gone. -/
structure Forgetting (env : Env) (ids : List PyStr) (c c' : Context) : Prop where
  books : ∀ book, c'.books book = c.books book ∨ Rewritten env ids c c' book
  dossiers : c'.dossiers = c.dossiers ∨ c'.dossiers = some (some (.obj []))
  completions : c.completions \ ids.toFinset ⊆ c'.completions ∧ c'.completions ⊆ c.completions
  corrections : Dropping (correctsOne ids) c.corrections c'.corrections
  jobs : Dropping (jobOfOne ids) c.jobs c'.jobs

/-- The records `c'` are `c` with all that is there of the notes gone. -/
structure Forgotten (env : Env) (ids : List PyStr) (c c' : Context) : Prop where
  books : ∀ book, Rewritten env ids c c' book
  dossiers : c'.dossiers = some (some (.obj []))
  completions : c'.completions = c.completions \ ids.toFinset
  corrections : Dropped (correctsOne ids) c.corrections c'.corrections
  jobs : Dropped (jobOfOne ids) c.jobs c'.jobs

/-- Everything that a purge reads of the records can be read. -/
structure Context.Legible (env : Env) (c : Context) : Prop where
  books : ∀ book, ∃ members, c.read env book = .ok members
  corrections : ∀ name found, c.corrections.lookup name = some found →
    ∃ note, correctionNote found = .ok note
  jobs : ∀ name found, c.jobs.lookup name = some found → found.isSome = true

section Decimals

variable {decimal : PyStr → PyStr}

mutual

theorem decimals_decimals : ∀ value,
    decimals decimal (decimals decimal value) = decimals decimal value
  | .null => rfl
  | .bool _ => rfl
  | .int _ => rfl
  | .float _ => rfl
  | .str _ => rfl
  | .arr items => congrArg Json.arr (decimalItems_decimalItems items)
  | .obj members => congrArg Json.obj (decimalMembers_decimalMembers members)

theorem decimalItems_decimalItems : ∀ items,
    decimalItems decimal (decimalItems decimal items) = decimalItems decimal items
  | [] => rfl
  | item :: items =>
    congrArg₂ List.cons (decimals_decimals item) (decimalItems_decimalItems items)

theorem decimalMembers_decimalMembers : ∀ members,
    decimalMembers decimal (decimalMembers decimal members) = decimalMembers decimal members
  | [] => rfl
  | member :: members =>
    congrArg₂ List.cons (decimalMember_decimalMember member) (decimalMembers_decimalMembers members)

theorem decimalMember_decimalMember : ∀ member,
    decimalMember decimal (decimalMember decimal member) = decimalMember decimal member
  | (key, value) => congrArg (Prod.mk key) (decimals_decimals value)

end

theorem mem_decimalMembers {fields : List (PyStr × Json)} {m : PyStr × Json}
    (h : m ∈ decimalMembers decimal fields) : ∃ m' ∈ fields, m'.1 = m.1 := by
  induction fields with
  | nil => cases h
  | cons field fields ih =>
    obtain rfl | h := List.mem_cons.1 h
    · obtain ⟨key, value⟩ := field
      exact ⟨_, List.mem_cons_self, rfl⟩
    · obtain ⟨m', hm', hkey⟩ := ih h
      exact ⟨m', List.mem_cons_of_mem _ hm', hkey⟩

/-- A follow-up that was written back is read as it is. -/
theorem followup_followup {env : Env} {member member' : PyStr × Json}
    (h : followup env member = .ok member') : followup env member' = .ok member' := by
  unfold followup at h
  split at h
  · next key fields =>
    obtain rfl := Except.ok.inj h
    have hkept : (decimalMembers env.decimal (fields.filter (·.1 ≠ candidatesKey))).filter
        (·.1 ≠ candidatesKey) =
          decimalMembers env.decimal (fields.filter (·.1 ≠ candidatesKey)) := by
      refine List.filter_eq_self.2 fun m hm => ?_
      obtain ⟨m', hm', hkey⟩ := mem_decimalMembers hm
      rw [← hkey]
      exact (List.mem_filter.1 hm').2
    rw [followup, hkept, decimalMembers_decimalMembers]
  · cases h

end Decimals

variable {env : Env} {ids : List PyStr} {c c' c'' : Context} {book : Book}

theorem without_without (members : List (PyStr × Json)) :
    without ids (without ids members) = without ids members := by
  rw [without, without, List.filter_filter]
  simp only [Bool.and_self]

theorem mapM_eq_self {ε α : Type} {f : α → Except ε α} {xs : List α}
    (h : ∀ x ∈ xs, f x = .ok x) : xs.mapM f = .ok xs := by
  induction xs with
  | nil => rfl
  | cons x xs ih =>
    rw [List.mapM_cons, h x List.mem_cons_self, ih fun y hy => h y (List.mem_cons_of_mem _ hy)]
    rfl

/-- What is read of a record reads as it is, whatever members are left. -/
theorem Context.read_written {members : List (PyStr × Json)} (h : c.read env book = .ok members)
    (hwritten : c'.books book = some (some (.obj (without ids members)))) :
    c'.read env book = .ok (without ids members) := by
  rw [Context.read, hwritten]
  dsimp only
  split
  · next hbook =>
    refine mapM_eq_self fun member hmember => ?_
    have hread : member ∈ members := List.mem_of_mem_filter hmember
    unfold Context.read at h
    split at h
    · obtain rfl := Except.ok.inj h
      cases hread
    · cases h
    · rw [if_pos hbook] at h
      obtain ⟨member', -, hfollowup⟩ := forall₂_mem_left (mapM_eq_ok.1 h).flip hread
      exact followup_followup hfollowup
    · rw [if_pos hbook] at h
      obtain rfl := Except.ok.inj h
      cases hread
  · rfl

theorem Rewritten.again (h : Rewritten env ids c c' book) (h' : Rewritten env ids c' c'' book) :
    Rewritten env ids c c'' book := by
  obtain ⟨members, hread, hwritten⟩ := h
  obtain ⟨members', hread', hwritten'⟩ := h'
  obtain rfl := Except.ok.inj ((Context.read_written hread hwritten).symm.trans hread')
  exact ⟨members, hread, hwritten'.trans (by rw [without_without])⟩

theorem Context.read_congr (h : c'.books book = c.books book) :
    c'.read env book = c.read env book := by
  rw [Context.read, Context.read, h]

theorem Rewritten.of_same (h : c'.books book = c.books book) (h' : Rewritten env ids c' c'' book) :
    Rewritten env ids c c'' book := by
  obtain ⟨members, hread, hwritten⟩ := h'
  exact ⟨members, Context.read_congr h ▸ hread, hwritten⟩

/-- What is left between all and the rest leaves the rest. -/
theorem sdiff_of_between {names left gone : Finset PyStr} (h : names \ gone ⊆ left)
    (h' : left ⊆ names) : left \ gone = names \ gone := by
  ext name
  simp only [Finset.mem_sdiff]
  exact ⟨fun hname => ⟨h' hname.1, hname.2⟩,
    fun hname => ⟨h (Finset.mem_sdiff.2 hname), hname.2⟩⟩

theorem Forgetting.refl : Forgetting env ids c c where
  books _ := Or.inl rfl
  dossiers := Or.inl rfl
  completions := ⟨Finset.sdiff_subset, fun _ h => h⟩
  corrections := .refl
  jobs := .refl

theorem Forgotten.forgetting (h : Forgotten env ids c c') : Forgetting env ids c c' where
  books book := Or.inr (h.books book)
  dossiers := Or.inr h.dossiers
  completions := by
    rw [h.completions]
    exact ⟨fun _ h => h, Finset.sdiff_subset⟩
  corrections := h.corrections.dropping
  jobs := h.jobs.dropping

theorem Forgetting.trans (h : Forgetting env ids c c') (h' : Forgetting env ids c' c'') :
    Forgetting env ids c c'' where
  books book := by
    obtain hsame' | hwritten' := h'.books book
    · obtain hsame | ⟨members, hread, hwritten⟩ := h.books book
      · exact Or.inl (hsame'.trans hsame)
      · exact Or.inr ⟨members, hread, hsame'.trans hwritten⟩
    · obtain hsame | hwritten := h.books book
      · exact Or.inr (.of_same hsame hwritten')
      · exact Or.inr (hwritten.again hwritten')
  dossiers := by
    obtain hsame | hempty := h'.dossiers
    · rw [hsame]
      exact h.dossiers
    · exact Or.inr hempty
  completions := by
    refine ⟨fun id hid => ?_, h'.completions.2.trans h.completions.2⟩
    have hkept := h.completions.1 hid
    exact h'.completions.1 (Finset.mem_sdiff.2 ⟨hkept, (Finset.mem_sdiff.1 hid).2⟩)
  corrections := h.corrections.trans h'.corrections
  jobs := h.jobs.trans h'.jobs

/-- **What a cut has left** is all gone where a later purge takes what is left. -/
theorem Forgetting.forgotten (h : Forgetting env ids c c') (h' : Forgotten env ids c' c'') :
    Forgotten env ids c c'' where
  books book := by
    obtain hsame | hwritten := h.books book
    · exact .of_same hsame (h'.books book)
    · exact hwritten.again (h'.books book)
  dossiers := h'.dossiers
  completions := by
    rw [h'.completions]
    exact sdiff_of_between h.completions.1 h.completions.2
  corrections := h.corrections.dropped h'.corrections
  jobs := h.jobs.dropped h'.jobs

/-- What is left can be read. -/
theorem Context.Legible.forgetting (hlegible : c.Legible env) (h : Forgetting env ids c c') :
    c'.Legible env where
  books book := by
    obtain hsame | ⟨members, hread, hwritten⟩ := h.books book
    · rw [Context.read_congr hsame]
      exact hlegible.books book
    · exact ⟨_, Context.read_written hread hwritten⟩
  corrections name found hfound := hlegible.corrections name found (h.corrections.lookup hfound)
  jobs name found hfound := hlegible.jobs name found (h.jobs.lookup hfound)

section Steps

theorem forgetting_writeBook {members : List (PyStr × Json)} (h : c.read env book = .ok members) :
    Forgetting env ids c (c.writeBook book (without ids members)) where
  books book' := by
    by_cases hbook : book' = book
    · subst hbook
      exact Or.inr ⟨members, h, Function.update_self _ _ _⟩
    · exact Or.inl (Function.update_of_ne hbook _ _)
  dossiers := Or.inl rfl
  completions := ⟨Finset.sdiff_subset, Finset.Subset.refl _⟩
  corrections := .refl
  jobs := .refl

theorem forgetting_completions {left : Finset PyStr} (h : c.completions \ ids.toFinset ⊆ left)
    (h' : left ⊆ c.completions) : Forgetting env ids c { c with completions := left } where
  books _ := Or.inl rfl
  dossiers := Or.inl rfl
  completions := ⟨h, h'⟩
  corrections := .refl
  jobs := .refl

theorem forgetting_dropCompletion {id : PyStr} (h : id ∈ ids) :
    Forgetting env ids c (c.dropCompletion id) := by
  refine forgetting_completions (fun id' hid' => ?_) (Finset.erase_subset _ _)
  obtain ⟨hmem, hids⟩ := Finset.mem_sdiff.1 hid'
  refine Finset.mem_erase.2 ⟨fun hsame => ?_, hmem⟩
  exact hids (List.mem_toFinset.2 (hsame ▸ h))

theorem forgetting_corrections {left : AList fun _ : PyStr => Option Json}
    (h : Dropping (correctsOne ids) c.corrections left) :
    Forgetting env ids c { c with corrections := left } where
  books _ := Or.inl rfl
  dossiers := Or.inl rfl
  completions := ⟨Finset.sdiff_subset, Finset.Subset.refl _⟩
  corrections := h
  jobs := .refl

theorem forgetting_dropCorrection {name : PyStr}
    (h : ∀ found, c.corrections.lookup name = some found → correctsOne ids found = true) :
    Forgetting env ids c (c.dropCorrection name) :=
  forgetting_corrections (dropping_erase h)

theorem forgetting_dropJob {name : PyStr}
    (h : ∀ found, c.jobs.lookup name = some found → jobOfOne ids found = true) :
    Forgetting env ids c (c.dropJob name) where
  books _ := Or.inl rfl
  dossiers := Or.inl rfl
  completions := ⟨Finset.sdiff_subset, Finset.Subset.refl _⟩
  corrections := .refl
  jobs := dropping_erase h

theorem forgetting_emptyDossiers : Forgetting env ids c c.emptyDossiers where
  books _ := Or.inl rfl
  dossiers := Or.inr rfl
  completions := ⟨Finset.sdiff_subset, Finset.Subset.refl _⟩
  corrections := .refl
  jobs := .refl

end Steps

end Forgetting

end Coppermind.Purge
