import Coppermind.Reconciler.Deferral

/-!
# What stops a pass

A pass raises over a note whose content the parser, a column or the review journal refuses, and
its updates are rolled back for every other note with it.  `Storable` says of the files a pass
walks and of the state it starts from that there is no such content; a pass then returns, and
settles every note it has an answer for.
-/

namespace Coppermind.Reconciler

open Coppermind.Lib Coppermind.Frontmatter Coppermind.Schema Coppermind.Notes

/-- `x` returns from `s`. -/
def Returns {α : Type} (x : Op α) (s : State) : Prop := ∃ a s', x s = .ok a s'

section Returns

variable {α β : Type} {x : Op α} {s : State}

theorem returns_iff_wp : Returns x s ↔ wp x (fun _ _ => True) (fun _ _ => False) s := by
  constructor
  · rintro ⟨a, s', hrun⟩
    unfold wp
    rw [hrun]
    trivial
  · intro h
    obtain ⟨a, s', hrun, -⟩ := wp_returns h
    exact ⟨a, s', hrun⟩

theorem returns_pure (a : α) : Returns (pure a) s := ⟨a, s, rfl⟩

/-- A sequence returns when its first part does, and its second from there. -/
theorem returns_bind {f : α → Op β} :
    Returns (x >>= f) s ↔ ∃ a s', x s = .ok a s' ∧ Returns (f a) s' := by
  unfold Returns
  simp only [bind_eq_ok]
  constructor
  · rintro ⟨b, s'', a, s', hx, hf⟩
    exact ⟨a, s', hx, b, s'', hf⟩
  · rintro ⟨a, s', hx, b, s'', hf⟩
    exact ⟨b, s'', a, s', hx, hf⟩

theorem returns_liftExcept {y : Except Raised α} {f : α → Op β} :
    Returns (liftExcept y >>= f) s ↔ ∃ a, y = .ok a ∧ Returns (f a) s := by
  rw [returns_bind]
  cases y with
  | ok a =>
    constructor
    · rintro ⟨a', s', h, hf⟩
      cases h
      exact ⟨a, rfl, hf⟩
    · rintro ⟨a', h, hf⟩
      cases h
      exact ⟨a, s, rfl, hf⟩
  | error e =>
    constructor
    · rintro ⟨a', s', h, -⟩
      cases h
    · rintro ⟨a', h, -⟩
      cases h

theorem returns_raiseIf {failing : Bool} {e : Raised} {f : Unit → Op β} :
    Returns (raiseIf failing e >>= f) s ↔ failing = false ∧ Returns (f ()) s := by
  rw [returns_bind]
  cases failing with
  | true =>
    constructor
    · rintro ⟨a', s', h, -⟩
      cases h
    · rintro ⟨h, -⟩
      cases h
  | false =>
    constructor
    · rintro ⟨a', s', h, hf⟩
      cases h
      exact ⟨rfl, hf⟩
    · rintro ⟨-, hf⟩
      exact ⟨(), s, rfl, hf⟩

theorem returns_get {f : State → Op β} : Returns (get >>= f) s ↔ Returns (f s) s := Iff.rfl

theorem returns_modify {g : State → State} {f : PUnit → Op β} :
    Returns (modify g >>= f) s ↔ Returns (f ⟨⟩) (g s) := Iff.rfl

/-- What returns from any state or from none may follow where the first part returns. -/
theorem returns_bind_of {f : α → Op β} {P : Prop} (h : ∀ a s', Returns (f a) s' ↔ P) :
    Returns (x >>= f) s ↔ Returns x s ∧ P := by
  rw [returns_bind]
  constructor
  · rintro ⟨a, s', hrun, hf⟩
    exact ⟨⟨a, s', hrun⟩, (h a s').1 hf⟩
  · rintro ⟨hx, hP⟩
    obtain ⟨a, s', hrun⟩ := hx
    exact ⟨a, s', hrun, (h a s').2 hP⟩

end Returns

section Updates

variable (lib : Libraries) (schema : FrontmatterSchema)

/-- `record_review` takes what a note declares: where it is reviewed, its sources are the names
of a list, a mapping or a string, and no manifest found under one lacks its revision. -/
def Reviewable (manifests : PyStr → SourceManifest) (frontmatter : Entries) : Prop :=
  isTrue (frontmatter.get? schema.roles.reviewedKey) = true →
    ∃ sources, reviewSources (frontmatter.get? schema.roles.sourcesKey) = some sources ∧
      ∀ source ∈ sources, manifests source ≠ .unnumbered

/-- The row of a note takes what was observed of its file: each value it does not hold already
fits its column, and where the row changes with no write since the scan started, the index
takes the note's path and title, and the review journal its sources. -/
structure Observable (pass : Pass) (row : Row) (o : Observation) : Prop where
  fits : ∀ v ∈ observedValues lib schema o, v.1.same (row.cells v.1) v.2 = false →
    v.1.admits v.2 = true
  indexed : (∃ v ∈ observedValues lib schema o, v.1.same (row.cells v.1) v.2 = false) →
    row.updatedAt ≤ pass.scanStarted → indexRefuses (some o) = false
  reviewed : ∀ title frontmatter body, o.state = .ok title frontmatter body →
    row.cells .reviewed ≠ isTrue (frontmatter.get? schema.roles.reviewedKey) →
      row.updatedAt ≤ pass.scanStarted → Reviewable schema pass.manifests frontmatter

/-- The receipt of a removal is no other than the one retained for it. -/
def Agrees (receipts : List Receipt) (receipt : Receipt) : Prop :=
  ∀ previous, retained receipts receipt = some previous →
    previous.data = receipt.data ∧ previous.path = receipt.path

/-- The row of a note nothing on disk carried takes what is left of it: the bytes of a later
removal can be read and their values fit, and a new receipt agrees with the one retained. -/
structure Removable (pass : Pass) (receipts : List Receipt) (row : Row) : Prop where
  later : (removalReceipt lib pass row).1 = none → row.state = .deleted →
    ∀ removal older, pass.history.removed row.id = removal :: older →
      ∃ removed, latestRemoval lib schema pass row removal = .ok removed ∧
        removed.values.admitted = true
  agrees : ∀ removed, removedValues lib schema pass receipts row = .ok removed →
    removed.values ≠ [] → row.updatedAt ≤ pass.scanStarted →
      ∀ receipt, removed.receipt = some receipt → Agrees receipts receipt

/-- The row of a pending note takes what the pass has of it. -/
def Takes (pass : Pass) (receipts : List Receipt) (row : Row) : Option Observation → Prop
  | some o => Observable lib schema pass row o
  | none => Removable lib schema pass receipts row

variable {lib schema}

theorem wp_of_run {α : Type} {x : Op α} {s s' : State} {a : α} {Q : α → State → Prop}
    {E : Raised → State → Prop} (h : x s = .ok a s') : wp x Q E s ↔ Q a s' := by
  unfold wp
  rw [h]

theorem textAdmits_append {s t : PyStr} (hs : textAdmits s = true) (ht : textAdmits t = true) :
    textAdmits (s ++ t) = true := by
  simp only [textAdmits, PyStr.encodable, Bool.and_eq_true, List.all_append] at hs ht ⊢
  exact ⟨⟨hs.1, ht.1⟩, hs.2, ht.2⟩

theorem admitted_changing (row : Row) (values : Values) :
    (Values.changing row values).admitted = true ↔
      ∀ v ∈ values, v.1.same (row.cells v.1) v.2 = false → v.1.admits v.2 = true := by
  simp only [Values.admitted, Values.changing, List.all_eq_true, List.mem_filter,
    Bool.not_eq_true', and_imp]

theorem changing_ne_nil (row : Row) (values : Values) :
    Values.changing row values ≠ [] ↔ ∃ v ∈ values, v.1.same (row.cells v.1) v.2 = false := by
  constructor
  · intro hne
    obtain ⟨v, hv⟩ := List.exists_mem_of_ne_nil _ hne
    rw [Values.changing, List.mem_filter, Bool.not_eq_true'] at hv
    exact ⟨v, hv⟩
  · rintro ⟨v, hv, hsame⟩
    exact List.ne_nil_of_mem (List.mem_filter.2 ⟨hv, by rw [hsame]; rfl⟩)

/-- The update from a file that was read mentions the reviewed flag where it differs. -/
theorem mentions_reviewed {row : Row} {o : Observation} {title : PyStr} {frontmatter : Entries}
    {body : Text} (hstate : o.state = .ok title frontmatter body) :
    (Values.changing row (observedValues lib schema o)).mentions .reviewed = true ↔
      row.cells .reviewed ≠ isTrue (frontmatter.get? schema.roles.reviewedKey) := by
  have hmem : (⟨.reviewed, isTrue (frontmatter.get? schema.roles.reviewedKey)⟩ :
      (c : Column) × c.Cell) ∈ observedValues lib schema o := by
    simp [observedValues, hstate, mirrorColumns]
  rw [Values.mentions, List.any_eq_true]
  constructor
  · rintro ⟨v, hv, hcolumn⟩
    rw [Values.changing, List.mem_filter, Bool.not_eq_true'] at hv
    have heq := List.inj_on_of_nodup_map (observedValues_nodup lib schema o) hv.1 hmem
      (beq_iff_eq.1 hcolumn)
    rw [heq] at hv
    exact beq_eq_false_iff_ne.1 hv.2
  · intro hne
    refine ⟨_, List.mem_filter.2 ⟨hmem, ?_⟩, rfl⟩
    rw [Bool.not_eq_true']
    exact beq_eq_false_iff_ne.2 hne

theorem approvedRevision_eq_ok {manifest : SourceManifest} :
    (∃ revision, approvedRevision manifest = .ok revision) ↔ manifest ≠ .unnumbered := by
  cases manifest with
  | unreadable => exact ⟨fun _ h => SourceManifest.noConfusion h, fun _ => ⟨_, rfl⟩⟩
  | revision n => exact ⟨fun _ h => SourceManifest.noConfusion h, fun _ => ⟨_, rfl⟩⟩
  | unnumbered =>
    constructor
    · rintro ⟨revision, h⟩
      cases h
    · intro h
      exact absurd rfl h

/-- A list can be mapped where each of its elements can. -/
theorem mapM_returns {ε α β : Type} {f : α → Except ε β} {xs : List α} :
    (∃ ys, xs.mapM f = .ok ys) ↔ ∀ x ∈ xs, ∃ y, f x = .ok y := by
  constructor
  · rintro ⟨ys, h⟩ x hx
    obtain ⟨y, -, hy⟩ := forall₂_mem_left (mapM_eq_ok.1 h) hx
    exact ⟨y, hy⟩
  · intro h
    induction xs with
    | nil => exact ⟨[], rfl⟩
    | cons x xs ih =>
      obtain ⟨y, hy⟩ := h x List.mem_cons_self
      obtain ⟨ys, hys⟩ := ih fun x hx => h x (List.mem_cons_of_mem _ hx)
      exact ⟨y :: ys, mapM_eq_ok.2 (.cons hy (mapM_eq_ok.1 hys))⟩

/-- `record_review` returns where the note can be reviewed. -/
theorem reviewOf_returns {manifests : PyStr → SourceManifest} {frontmatter : Entries} :
    (∃ review, reviewOf schema manifests frontmatter = .ok review) ↔
      Reviewable schema manifests frontmatter := by
  unfold reviewOf Reviewable
  by_cases hflag : isTrue (frontmatter.get? schema.roles.reviewedKey) = true
  · rw [if_pos hflag]
    cases hsources : reviewSources (frontmatter.get? schema.roles.sourcesKey) with
    | none =>
      constructor
      · rintro ⟨review, h⟩
        cases h
      · intro h
        obtain ⟨sources, hsome, -⟩ := h hflag
        cases hsome
    | some sources =>
      have hnumbered : (∃ approved, (sources.insertionSort fun s t => strLe s t).mapM (fun source => do
            let revision ← approvedRevision (manifests source)
            return (source, revision)) = Except.ok approved) ↔
          ∀ source ∈ sources, manifests source ≠ .unnumbered := by
        rw [mapM_returns]
        simp only [List.mem_insertionSort]
        refine forall₂_congr fun source _ => ?_
        rw [← approvedRevision_eq_ok]
        cases approvedRevision (manifests source) with
        | error e =>
          constructor
          · rintro ⟨y, h⟩
            cases h
          · rintro ⟨y, h⟩
            cases h
        | ok revision => exact ⟨fun _ => ⟨_, rfl⟩, fun _ => ⟨_, rfl⟩⟩
      constructor
      · rintro ⟨review, h⟩ -
        refine ⟨sources, rfl, hnumbered.1 ?_⟩
        dsimp only at h
        cases happroved : (sources.insertionSort fun s t => strLe s t).mapM (fun source => do
            let revision ← approvedRevision (manifests source)
            return (source, revision)) with
        | error e =>
          rw [happroved] at h
          cases h
        | ok approved => exact ⟨approved, rfl⟩
      · intro h
        obtain ⟨_, heq, hall⟩ := h hflag
        obtain rfl := Option.some.inj heq
        obtain ⟨approved, happroved⟩ := hnumbered.2 hall
        refine ⟨⟨true, approved⟩, ?_⟩
        dsimp only
        rw [happroved]
        rfl
  · rw [if_neg hflag]
    exact ⟨fun _ h => absurd h hflag, fun _ => ⟨_, rfl⟩⟩

theorem keepRecord_returns {pass : Pass} {observed : Option Observation} {receipt : Option Receipt}
    {updated : Row} {s : State} :
    Returns (keepRecord pass observed receipt updated) s ↔
      ∀ r, receipt = some r → Agrees s.receipts r := by
  rw [returns_iff_wp]
  cases receipt with
  | none =>
    refine ⟨fun _ r h => (by cases h), fun _ => ?_⟩
    by_cases h : observed.isSome = true <;> simp [keepRecord, h, rememberReturn]
  | some receipt =>
    simp only [keepRecord, saveReceipt, wp_bind, wp_get, Option.some.injEq, forall_eq', Agrees]
    cases h : retained s.receipts receipt with
    | none => simp
    | some previous =>
      simp only [wp_raiseIf, decide_eq_true_eq, Option.some.injEq, forall_eq']
      by_cases hagrees : previous.data = receipt.data ∧ previous.path = receipt.path
      · simp [hagrees.1, hagrees.2]
      · refine ⟨fun h => ?_, fun h => absurd h hagrees⟩
        rw [if_pos (not_and_or.1 hagrees)] at h
        exact h.elim

theorem recordReview_returns {pass : Pass} {observed : Option Observation} {id : NoteId}
    {values : Values} {s : State} :
    Returns (recordReview schema pass observed id values) s ↔
      ∀ frontmatter, observedFrontmatter observed = some frontmatter →
        values.mentions .reviewed = true → Reviewable schema pass.manifests frontmatter := by
  unfold recordReview
  cases hf : observedFrontmatter observed with
  | none => exact ⟨fun _ _ h => (by cases h), fun _ => returns_pure _⟩
  | some frontmatter =>
    simp only [Option.some.injEq, forall_eq']
    by_cases hm : values.mentions .reviewed = true
    · rw [if_pos hm, returns_liftExcept, ← reviewOf_returns]
      simp only [hm, forall_const]
      exact exists_congr fun review => and_iff_left ⟨_, _, rfl⟩
    · rw [if_neg hm]
      exact ⟨fun _ h => absurd h hm, fun _ => returns_pure _⟩

/-- What the step of a pending row has to take. -/
theorem updatePending_returns {pass : Pass} {observed : Option Observation} {row : Row}
    {counts : Counts} {s : State} :
    Returns (updatePending lib schema pass observed row counts) s ↔
      ∃ removed, pendingValues lib schema pass s.receipts row observed = .ok removed ∧
        (removed.values = [] ∨ (removed.values.admitted = true ∧
          (row.updatedAt ≤ pass.scanStarted →
            (∀ r, removed.receipt = some r → Agrees s.receipts r) ∧
            (∀ frontmatter, observedFrontmatter observed = some frontmatter →
              removed.values.mentions .reviewed = true →
                Reviewable schema pass.manifests frontmatter) ∧
            indexRefuses observed = false))) := by
  unfold updatePending
  rw [returns_get, returns_liftExcept]
  refine exists_congr fun removed => and_congr_right fun _ => ?_
  dsimp only
  by_cases hvalues : removed.values = []
  · rw [if_pos hvalues]
    exact ⟨fun _ => Or.inl hvalues, fun _ => returns_pure _⟩
  rw [if_neg hvalues, returns_raiseIf, or_iff_right hvalues, Bool.not_eq_false']
  refine and_congr_right fun _ => ?_
  by_cases hguard : pass.scanStarted < row.updatedAt
  · rw [if_pos hguard]
    exact ⟨fun _ h => absurd h (not_le.2 hguard), fun _ => returns_pure _⟩
  rw [if_neg hguard, returns_modify, imp_iff_right (not_lt.1 hguard)]
  have htail (s' : State) : Returns (raiseIf (indexRefuses observed) .metadataUnavailable >>= fun _ =>
      pure (countRow counts row observed removed.receipt)) s' ↔ indexRefuses observed = false := by
    rw [returns_raiseIf]
    exact and_iff_left (returns_pure _)
  have hreview (s' : State) := (returns_bind_of (x := recordReview schema pass observed row.id
    removed.values) (s := s') fun _ => htail).trans (and_congr_left' recordReview_returns)
  rw [returns_bind_of fun _ => hreview, keepRecord_returns]
  rfl

theorem observedFrontmatter_eq_some {o : Observation} {frontmatter : Entries} :
    observedFrontmatter (some o) = some frontmatter ↔
      ∃ title body, o.state = .ok title frontmatter body := by
  obtain ⟨noteId, path, state, hash, size, mtime, derived⟩ := o
  cases state with
  | ok title frontmatter' body => simp [observedFrontmatter]
  | unparsed => simp [observedFrontmatter]
  | unreadable => simp [observedFrontmatter]

/-- The step of a row a file was found for. -/
theorem observed_returns {pass : Pass} {row : Row} {o : Observation} {counts : Counts} {s : State} :
    Returns (updatePending lib schema pass (some o) row counts) s ↔
      Observable lib schema pass row o := by
  rw [updatePending_returns]
  constructor
  · rintro ⟨removed, hremoved, h⟩
    obtain rfl : (⟨valuesFor lib schema row (some o), none⟩ : Removed) = removed :=
      Except.ok.inj hremoved
    change Values.changing row (observedValues lib schema o) = [] ∨ _ at h
    constructor
    · refine (admitted_changing _ _).1 ?_
      rcases h with h | ⟨h, -⟩
      · rw [h]
        rfl
      · exact h
    · intro hchanged htime
      rcases h with h | ⟨-, h⟩
      · exact absurd h ((changing_ne_nil _ _).2 hchanged)
      · exact (h htime).2.2
    · intro title frontmatter body hstate hne htime
      have hmentions : (Values.changing row (observedValues lib schema o)).mentions .reviewed =
          true := (mentions_reviewed hstate).2 hne
      rcases h with h | ⟨-, h⟩
      · rw [h] at hmentions
        cases hmentions
      · exact (h htime).2.1 frontmatter (observedFrontmatter_eq_some.2 ⟨title, body, hstate⟩)
          hmentions
  · intro h
    refine ⟨_, rfl, ?_⟩
    change Values.changing row (observedValues lib schema o) = [] ∨ _
    by_cases hvalues : Values.changing row (observedValues lib schema o) = []
    · exact Or.inl hvalues
    · refine Or.inr ⟨(admitted_changing _ _).2 h.fits, fun htime => ⟨?_, ?_, ?_⟩⟩
      · intro r hr
        cases hr
      · intro frontmatter hf hmentions
        obtain ⟨title, body, hstate⟩ := observedFrontmatter_eq_some.1 hf
        exact h.reviewed title frontmatter body hstate ((mentions_reviewed hstate).1 hmentions) htime
      · exact h.indexed ((changing_ne_nil _ _).1 hvalues) htime

theorem textAdmits_contentHash {row : Row} (h : rowAdmitted row = true) :
    textAdmits row.contentHash = true :=
  List.all_eq_true.1 h .contentHash (by simp)

theorem textAdmits_vanishedReason {row : Row} (h : rowAdmitted row = true) {detail : String}
    (hdetail : textAdmits (PyStr.lit detail) = true) :
    textAdmits (vanishedReason row detail) = true :=
  textAdmits_append (textAdmits_append (by decide +kernel) (textAdmits_contentHash h)) hdetail

/-- The reason a filing gives for a note it lost is text. -/
theorem textAdmits_removalReceipt {pass : Pass} {row : Row} (h : rowAdmitted row = true)
    {found : Option Receipt} {reason : PyStr}
    (hreason : removalReceipt lib pass row = (found, some reason)) : textAdmits reason = true := by
  unfold removalReceipt vanishedReceipt at hreason
  repeat' split at hreason
  all_goals try cases hreason
  all_goals exact textAdmits_vanishedReason h (by decide +kernel)

theorem admitted_absentValues {row : Row} {reason : Option PyStr}
    (hreason : ∀ text, reason = some text → textAdmits text = true) :
    (absentValues lib schema row reason).admitted = true := by
  unfold absentValues
  cases reason with
  | some text =>
    refine (admitted_changing _ _).2 fun v hv _ => ?_
    rcases List.mem_cons.1 hv with rfl | hv
    · rfl
    · obtain rfl := List.mem_singleton.1 hv
      exact hreason text rfl
  | none =>
    dsimp only
    unfold valuesFor
    dsimp only
    split
    · rfl
    · decide +kernel

/-- The values of a removal fit their columns, but for those a later removal brings. -/
theorem removedValues_cases {pass : Pass} {receipts : List Receipt} {row : Row}
    (hrow : rowAdmitted row = true) :
    (∃ removed, removedValues lib schema pass receipts row = .ok removed ∧
      removed.values.admitted = true) ∨
    ((removalReceipt lib pass row).1 = none ∧ row.state = .deleted ∧
      ∃ removal older, pass.history.removed row.id = removal :: older ∧
        removedValues lib schema pass receipts row = latestRemoval lib schema pass row removal) := by
  unfold removedValues
  rcases hfound : removalReceipt lib pass row with ⟨_ | receipt, reason⟩
  · have habsent : (absentValues lib schema row reason).admitted = true := by
      refine admitted_absentValues fun text htext => ?_
      subst htext
      exact textAdmits_removalReceipt hrow hfound
    dsimp only
    by_cases hdeleted : row.state = .deleted
    · rw [if_pos hdeleted]
      cases hhistory : pass.history.removed row.id with
      | nil =>
        dsimp only
        split
        · exact Or.inl ⟨_, rfl, habsent⟩
        · exact Or.inl ⟨_, rfl, rfl⟩
      | cons removal older => exact Or.inr ⟨rfl, hdeleted, removal, older, rfl, rfl⟩
    · rw [if_neg hdeleted]
      exact Or.inl ⟨_, rfl, habsent⟩
  · dsimp only
    split
    · exact Or.inl ⟨_, rfl, rfl⟩
    · have hdeleted : Values.admitted deletedValues = true := by decide +kernel
      exact Or.inl ⟨_, rfl, hdeleted⟩

/-- The step of a row nothing on disk carried. -/
theorem removed_returns {pass : Pass} {row : Row} {counts : Counts} {s : State}
    (hrow : rowAdmitted row = true) :
    Returns (updatePending lib schema pass none row counts) s ↔
      Removable lib schema pass s.receipts row := by
  rw [updatePending_returns]
  change (∃ removed, removedValues lib schema pass s.receipts row = .ok removed ∧ _) ↔ _
  constructor
  · rintro ⟨removed, hremoved, h⟩
    constructor
    · intro hnone hdeleted removal older hhistory
      have hlatest : removedValues lib schema pass s.receipts row =
          latestRemoval lib schema pass row removal := by
        unfold removedValues
        rcases hfound : removalReceipt lib pass row with ⟨_ | receipt, reason⟩
        · simp only [if_pos hdeleted, hhistory]
        · rw [hfound] at hnone
          cases hnone
      refine ⟨removed, hlatest ▸ hremoved, ?_⟩
      rcases h with h | ⟨h, -⟩
      · rw [h]
        rfl
      · exact h
    · intro removed' hremoved' hvalues htime
      obtain rfl := Except.ok.inj (hremoved.symm.trans hremoved')
      exact ((or_iff_right hvalues).1 h).2 htime |>.1
  · intro h
    obtain ⟨removed, hremoved, hadmitted⟩ : ∃ removed,
        removedValues lib schema pass s.receipts row = .ok removed ∧
          removed.values.admitted = true := by
      rcases removedValues_cases hrow with hok | ⟨hnone, hdeleted, removal, older, hhistory, heq⟩
      · exact hok
      · rw [heq]
        exact h.later hnone hdeleted removal older hhistory
    refine ⟨removed, hremoved, ?_⟩
    by_cases hvalues : removed.values = []
    · exact Or.inl hvalues
    · exact Or.inr ⟨hadmitted, fun htime => ⟨h.agrees removed hremoved hvalues htime,
        fun _ hf => (by cases hf), rfl⟩⟩

/-- The step of a pending row returns where the row takes what the pass has of it. -/
theorem pending_returns {pass : Pass} {observed : Option Observation} {row : Row} {counts : Counts}
    {s : State} (hrow : rowAdmitted row = true) :
    Returns (updatePending lib schema pass observed row counts) s ↔
      Takes lib schema pass s.receipts row observed := by
  cases observed with
  | some o => exact observed_returns
  | none => exact removed_returns hrow

/-- A row only asks for its own receipts. -/
theorem takes_congr {pass : Pass} {observed : Option Observation} {row : Row}
    {receipts receipts' : List Receipt} (h : receiptsOf receipts row.id = receiptsOf receipts' row.id)
    (htakes : Takes lib schema pass receipts row observed) :
    Takes lib schema pass receipts' row observed := by
  cases observed with
  | some o => exact htakes
  | none =>
    have hsame := pendingValues_congr lib schema pass none h
    change removedValues lib schema pass receipts row =
      removedValues lib schema pass receipts' row at hsame
    refine ⟨htakes.later, fun removed hremoved hvalues htime receipt hreceipt => ?_⟩
    rw [← hsame] at hremoved
    have hown := removedValues_noteId lib schema hremoved hreceipt
    have hagrees := htakes.agrees removed hremoved hvalues htime receipt hreceipt
    unfold Agrees at hagrees ⊢
    rwa [retained_congr (show receipts'.filter (·.noteId == receipt.noteId) =
      receipts.filter (·.noteId == receipt.noteId) by rw [hown]; exact h.symm)]

/-- The loop over the pending rows returns where each row takes what the pass has of it. -/
theorem updateAll_returns {pass : Pass} {scan : ScanResult} {index : Index} {ids : List NoteId}
    (hids : ids.Nodup) {counts : Counts} {s : State}
    (hrows : ∀ id ∈ ids, ∀ row, s.row? id = some row → rowAdmitted row = true) :
    Returns (updateAll lib schema pass scan index ids counts) s ↔
      ∀ id ∈ ids, ∀ row, s.row? id = some row →
        Takes lib schema pass s.receipts row (chosen scan index id) := by
  induction ids generalizing counts s with
  | nil => exact ⟨fun _ _ h => absurd h List.not_mem_nil, fun _ => returns_pure _⟩
  | cons id rest ih =>
    rw [List.nodup_cons] at hids
    rw [updateAll, returns_get, List.forall_mem_cons]
    have hrest := (List.forall_mem_cons.1 hrows).2
    cases hrow : s.row? id with
    | none =>
      rw [show (∀ row, (none : Option Row) = some row →
        Takes lib schema pass s.receipts row (chosen scan index id)) ↔ True from
          iff_true_intro fun _ h => (by cases h), true_and]
      exact ih hids.2 hrest
    | some row =>
      simp only [Option.some.injEq, forall_eq']
      obtain rfl : row.id = id := row?_id hrow
      rw [returns_bind]
      have hfirst : Returns (updatePending lib schema pass (chosen scan index row.id) row counts) s ↔
          Takes lib schema pass s.receipts row (chosen scan index row.id) :=
        pending_returns ((List.forall_mem_cons.1 hrows).1 row hrow)
      have hafter {counts' : Counts} {s₁ : State}
          (hrun : updatePending lib schema pass (chosen scan index row.id) row counts s =
            .ok counts' s₁) :
          Returns (updateAll lib schema pass scan index rest counts') s₁ ↔
            ∀ id ∈ rest, ∀ row, s.row? id = some row →
              Takes lib schema pass s.receipts row (chosen scan index id) := by
        obtain ⟨removed, hremoved, h₁⟩ := wp_ok (updatePending_wp lib schema pass _ counts hrow) hrun
        have hothers {id' : NoteId} (hmem : id' ∈ rest) : s₁.row? id' = s.row? id' ∧
            receiptsOf s₁.receipts id' = receiptsOf s.receipts id' := by
          have hne : id' ≠ row.id := fun heq => hids.1 (heq ▸ hmem)
          rw [h₁.receipts]
          exact ⟨h₁.others id' hne, keptReceipts_others
            (fun receipt => pendingValues_noteId lib schema hremoved) hne⟩
        rw [ih hids.2 fun id' hmem row' hrow' => hrest id' hmem row' ((hothers hmem).1 ▸ hrow')]
        refine forall₂_congr fun id' hmem => ?_
        rw [(hothers hmem).1]
        refine forall₂_congr fun row' hrow' => ?_
        obtain rfl : row'.id = id' := row?_id hrow'
        exact ⟨takes_congr (hothers hmem).2, takes_congr (hothers hmem).2.symm⟩
      constructor
      · rintro ⟨counts', s₁, hrun, hreturns⟩
        exact ⟨hfirst.1 ⟨counts', s₁, hrun⟩, (hafter hrun).1 hreturns⟩
      · rintro ⟨htakes, hall⟩
        obtain ⟨counts', s₁, hrun⟩ := hfirst.2 htakes
        exact ⟨counts', s₁, hrun, (hafter hrun).2 hall⟩

end Updates

section Adoptions

variable {lib : Libraries} {db : Database} {schema : FrontmatterSchema}

/-- What the database refuses of a value, it refuses as data. -/
def RefusesAsData (db : Database) : Prop :=
  ∀ values, Values.admitted values = false → db.dataException values = true

theorem insertAdoption_available (hdb : RefusesAsData db) (path : RelPath) (moment : AdoptionMoment)
    (adoption : Adoption) (text : Option Text) :
    insertAdoption lib db schema path moment adoption text ≠ .metadataUnavailable := by
  intro h
  unfold insertAdoption at h
  split at h
  · cases h
  · dsimp only at h
    split at h
    · cases h
    · next hadmitted =>
      rw [if_pos (hdb _ (by simpa using hadmitted))] at h
      cases h

theorem writeAdoption_available (hdb : RefusesAsData db) (path : RelPath) (expected : PyStr)
    (data : FileBytes) (moment : AdoptionMoment) (adoption : Adoption) :
    writeAdoption lib db schema path expected data moment adoption ≠ .metadataUnavailable := by
  intro h
  unfold writeAdoption at h
  repeat' split at h
  all_goals first
    | exact insertAdoption_available hdb _ _ _ _ h
    | cases h

theorem landAdoption_available (hdb : RefusesAsData db) (rows : List Row) (path : RelPath)
    (expected : PyStr) (data : FileBytes) (moment : AdoptionMoment) (adoption : Adoption) :
    landAdoption lib db schema rows path expected data moment adoption ≠ .metadataUnavailable := by
  intro h
  unfold landAdoption at h
  split at h
  · cases h
  · split at h
    · next hpath =>
      have hadmitted : Values.admitted [⟨.path, path⟩] = false := by
        simpa [Values.admitted, Column.admits] using hpath
      rw [if_pos (hdb _ hadmitted)] at h
      cases h
    · split at h
      · cases h
      · exact writeAdoption_available hdb _ _ _ _ _ h

/-- No adoption finds the metadata store unavailable. -/
theorem adoptNote_available (hdb : RefusesAsData db) (rows : List Row) (candidate : Candidate)
    (moment : AdoptionMoment) (localNow : DateTime) :
    adoptNote lib db schema rows candidate moment localNow ≠ .metadataUnavailable := by
  intro h
  unfold adoptNote at h
  repeat' split at h
  all_goals first
    | exact landAdoption_available hdb _ _ _ _ _ _ h
    | cases h

theorem adoptAll_returns (hdb : RefusesAsData db) {pass : Pass} (candidates : List Candidate) (p : Progress)
    (s : State) : Returns (adoptAll lib db schema pass candidates p) s := by
  induction candidates generalizing p s with
  | nil => exact returns_pure p
  | cons candidate rest ih =>
    rw [adoptAll, returns_get]
    cases hadopt : adoptNote lib db schema s.rows candidate (pass.adoptions candidate)
        pass.localNow with
    | metadataUnavailable => exact absurd hadopt (adoptNote_available hdb _ _ _ _)
    | failed text => exact ih _ _
    | changed cause => exact ih _ _
    | invalid cause => exact ih _ _
    | collision cause => exact ih _ _
    | adopted row text =>
      dsimp only
      rw [returns_modify]
      split
      · exact returns_pure _
      · exact ih _ _

end Adoptions

section Pass

variable (lib : Libraries) (db : Database) (schema : FrontmatterSchema) (settings : Settings)

/-- The bytes of a file, where the scan reads it, parse or fail as frontmatter does. -/
def Legible (known : Known) (sighting : Sighting) : Prop :=
  ∀ size mtime data, openFile settings known sighting = .read size mtime data →
    ∃ parsed, parseBytes lib.yaml data = .ok parsed

/-- The store once the rows of lost notes have been inserted. -/
def State.seeded (s : State) (rows : List Row) : State := { s with rows := s.rows ++ rows }

/-- Each pending row takes what a walk found for it, and so do the recorded collisions. -/
structure Settleable (pass : Pass) (s : State) (found : ScanResult) : Prop where
  collisions : ∀ c ∈ collisionsOf found (mirrorIndex pass s), textAdmits c.2 = true
  takes : ∀ id ∈ pending found (mirrorIndex pass s), ∀ row, s.row? id = some row →
    Takes lib schema pass s.receipts row (chosen found (mirrorIndex pass s) id)

/-- No content stops a pass over a walk: the rows it recovers fit, each file it reads can be
parsed, and each row it settles takes what was found for it. -/
structure Storable (pass : Pass) (walk : List Sighting) (s : State) (rows : List Row) : Prop where
  recovers : (lost pass s).mapM (recoveredRow lib schema pass s.returns) = .ok rows
  fits : ∀ row ∈ rows, rowAdmitted row = true
  legible : ∀ sighting ∈ walk, Legible lib settings (knownOf pass (s.seeded rows)) sighting
  notes : ∀ found, scan lib schema settings (knownOf pass (s.seeded rows)) walk = .ok found →
    Settleable lib schema pass (s.seeded rows) found

variable {lib db schema settings}

theorem recoverRows_eq_ok {pass : Pass} {s s' : State} :
    recoverRows lib schema pass s = .ok () s' ↔
      ∃ rows, (lost pass s).mapM (recoveredRow lib schema pass s.returns) = .ok rows ∧
        (∀ row ∈ rows, rowAdmitted row = true) ∧ s' = s.seeded rows := by
  have hfits (rows : List Row) : (rows.any fun row => !rowAdmitted row) = false ↔
      ∀ row ∈ rows, rowAdmitted row = true := by
    simp [List.any_eq_false]
  constructor
  · intro h
    unfold recoverRows at h
    obtain ⟨s₀, s₁, hget, h⟩ := bind_eq_ok.1 h
    cases hget
    obtain ⟨rows, s₂, hrows, h⟩ := bind_eq_ok.1 h
    have hmap : (lost pass s).mapM (recoveredRow lib schema pass s.returns) = .ok rows ∧ s = s₂ := by
      change liftExcept ((lost pass s).mapM (recoveredRow lib schema pass s.returns)) s = _ at hrows
      cases hmap : (lost pass s).mapM (recoveredRow lib schema pass s.returns) with
      | error e =>
        rw [hmap] at hrows
        cases hrows
      | ok rows' =>
        rw [hmap] at hrows
        cases hrows
        exact ⟨rfl, rfl⟩
    obtain ⟨hmap, rfl⟩ := hmap
    obtain ⟨_, s₃, hraise, h⟩ := bind_eq_ok.1 h
    cases hany : rows.any fun row => !rowAdmitted row with
    | true =>
      rw [hany] at hraise
      cases hraise
    | false =>
      rw [hany] at hraise
      cases hraise
      cases h
      exact ⟨rows, hmap, (hfits rows).1 hany, rfl⟩
  · rintro ⟨rows, hmap, hall, rfl⟩
    unfold recoverRows
    refine bind_eq_ok.2 ⟨s, s, rfl, bind_eq_ok.2 ⟨rows, s, ?_, bind_eq_ok.2 ⟨(), s, ?_, rfl⟩⟩⟩
    · rw [hmap]
      rfl
    · rw [(hfits rows).2 hall]
      rfl

theorem scanFile_returns (schema : FrontmatterSchema) {known : Known} {sighting : Sighting} :
    (∃ finding, scanFile lib schema settings known sighting = .ok finding) ↔
      Legible lib settings known sighting := by
  unfold scanFile Legible
  cases openFile settings known sighting with
  | decided finding => exact ⟨fun _ _ _ _ h => (by cases h), fun _ => ⟨finding, rfl⟩⟩
  | read size mtime data =>
    constructor
    · rintro ⟨finding, h⟩ size' mtime' data' heq
      cases heq
      cases hparse : parseBytes lib.yaml data with
      | error e =>
        dsimp only at h
        rw [hparse] at h
        cases h
      | ok parsed => exact ⟨parsed, rfl⟩
    · intro h
      obtain ⟨parsed, hparse⟩ := h size mtime data rfl
      dsimp only
      rw [hparse]
      exact ⟨_, rfl⟩

/-- A scan returns where no file stops it. -/
theorem scan_returns (schema : FrontmatterSchema) {known : Known} {walk : List Sighting} :
    (∃ found, scan lib schema settings known walk = .ok found) ↔
      ∀ sighting ∈ walk, Legible lib settings known sighting := by
  have hfile (sighting : Sighting) : (∃ f : RelPath × Finding, f.1 = sighting.path ∧
      scanFile lib schema settings known sighting = .ok f.2) ↔
        Legible lib settings known sighting := by
    rw [← scanFile_returns schema]
    constructor
    · rintro ⟨f, -, h⟩
      exact ⟨f.2, h⟩
    · rintro ⟨finding, h⟩
      exact ⟨(sighting.path, finding), rfl, h⟩
  simp only [← hfile]
  constructor
  · rintro ⟨found, h⟩ sighting hmem
    obtain ⟨f, -, hf⟩ := scan_mem h hmem
    exact ⟨f, hf⟩
  · intro h
    suffices hall : ∃ findings : List (RelPath × Finding), List.Forall₂ (fun sighting f =>
        f.1 = sighting.path ∧ scanFile lib schema settings known sighting = .ok f.2) walk
          findings by
      obtain ⟨findings, hall⟩ := hall
      exact ⟨⟨findings⟩, scan_eq_ok.2 hall⟩
    induction walk with
    | nil => exact ⟨[], .nil⟩
    | cons sighting rest ih =>
      obtain ⟨f, hf⟩ := h sighting List.mem_cons_self
      obtain ⟨findings, hall⟩ := ih fun sighting hmem => h sighting (List.mem_cons_of_mem _ hmem)
      exact ⟨f :: findings, .cons hf hall⟩

variable (lib db schema settings)

/-- A pass returns, and each pending row ends as what the pass has of it says. -/
def Converges (pass : Pass) (s : State) : Prop :=
  ∃ counts s', reconcileOnce lib db schema settings pass s = .ok counts s' ∧
    ∃ walk found, pass.walk = some walk ∧
      scan lib schema settings (knownOf pass (recovered lib schema pass s)) walk = .ok found ∧
      ∀ id ∈ pending found (mirrorIndex pass (recovered lib schema pass s)), ∀ row,
        (recovered lib schema pass s).row? id = some row → ∃ removed,
          pendingValues lib schema pass s.receipts row
              (chosen found (mirrorIndex pass (recovered lib schema pass s)) id) = .ok removed ∧
            s'.row? id = some (settledRow pass row removed.values)

variable {lib db schema settings}

theorem converges_of_returns {pass : Pass} {s : State} (hkeyed : s.Keyed)
    (h : Returns (reconcileOnce lib db schema settings pass) s) :
    Converges lib db schema settings pass s := by
  obtain ⟨counts, s', hrun⟩ := h
  obtain ⟨walk, found, progress, s₁, hpassed⟩ :=
    wp_ok (reconcileOnce_wp lib db schema settings pass hkeyed) hrun
  refine ⟨counts, s', hrun, walk, found, hpassed.walked, hpassed.scanned, ?_⟩
  intro id hid row hrow
  have hadded := hpassed.added lib db schema settings
  have hreceipts : s₁.receipts = s.receipts :=
    hadded.receipts.trans (recovered_added lib schema pass s).receipts
  obtain ⟨removed, hremoved, hsettled, -⟩ := hpassed.settled.pending id hid row (hadded.row? hrow)
  rw [← hreceipts]
  exact ⟨removed, hremoved, hsettled⟩

/-- The notes a pass settles have a row. -/
theorem row?_of_pending {pass : Pass} {s : State} {found : ScanResult} {id : NoteId}
    (h : id ∈ pending found (mirrorIndex pass s)) : ∃ row, s.row? id = some row := by
  obtain ⟨entry, hentry, rfl⟩ := List.mem_map.1 (List.mem_of_mem_filter h)
  obtain ⟨row, hrow, rfl⟩ := List.mem_map.1 hentry
  refine Option.isSome_iff_exists.1 (List.find?_isSome.2 ⟨row, List.mem_of_mem_filter hrow, ?_⟩)
  exact beq_self_eq_true _

/-- What a pass has to take once it has recovered its rows. -/
theorem recovered_returns {pass : Pass} {walk : List Sighting} {s s₀ : State} (hkeyed : s₀.Keyed)
    (hstored : ∀ row ∈ s₀.rows, rowAdmitted row = true) (hdb : RefusesAsData db)
    (hwalk : pass.walk = some walk) (hrun : recoverRows lib schema pass s = .ok () s₀) :
    Returns (reconcileOnce lib db schema settings pass) s ↔
      (∀ sighting ∈ walk, Legible lib settings (knownOf pass s₀) sighting) ∧
        ∀ found, scan lib schema settings (knownOf pass s₀) walk = .ok found →
          Settleable lib schema pass s₀ found := by
  rw [returns_iff_wp]
  unfold reconcileOnce
  rw [wp_bind, wp_of_run hrun, ← scan_returns schema]
  simp only [wp_bind, wp_get, wp_liftExcept, wp_modify, wp_transaction, wp_pure, hwalk,
    Option.elim_some]
  cases hscan : scan lib schema settings (knownOf pass s₀) walk with
  | error e =>
    have hknown := hscan
    unfold knownOf at hknown
    rw [hknown]
    refine ⟨fun h => h.elim, fun h => ?_⟩
    obtain ⟨found, hfound⟩ := h.1
    cases hfound
  | ok found =>
    have hknown := hscan
    unfold knownOf at hknown
    rw [hknown]
    simp only [Except.ok.injEq, exists_eq', true_and, forall_eq']
    obtain ⟨progress, s₁, hadopt⟩ := @adoptAll_returns lib db schema hdb pass found.candidates {}
      { s₀ with memory := found.unidentified }
    have hadopted := wp_ok (adoptAll_wp lib db schema pass found.candidates {} _) hadopt
    have hscanned : Added s₀ { s₀ with memory := found.unidentified } := Added.of_eq rfl rfl rfl
    have hadded := hscanned.trans hadopted
    have hrows {id : NoteId} (hid : id ∈ pending found (mirrorIndex pass s₀)) :
        s₁.row? id = s₀.row? id := by
      obtain ⟨row, hrow⟩ := row?_of_pending hid
      rw [hrow, hadded.row? hrow]
    rw [wp_of_run hadopt, wp_raiseIf]
    by_cases hpaths : ∀ c ∈ collisionsOf found (mirrorIndex pass s₀), textAdmits c.2 = true
    · rw [if_neg (by simpa [List.any_eq_true] using hpaths)]
      have hupdates := @updateAll_returns lib schema pass found (mirrorIndex pass s₀)
        (pending found (mirrorIndex pass s₀)) (pending_nodup hkeyed found)
        { adopted := progress.adopted, backlog := progress.retry + progress.untried
          rejected := found.unidentifiedUnparsed + progress.rejected
          unwritable := progress.unwritable, duplicates := duplicatesOf found (mirrorIndex pass s₀)
          changed := 0, moved := 0, missing := 0, deleted := 0, unparsed := 0
          deferred := found.deferred, excluded := found.exclusions.length }
        { s₁ with collisions := collisionsOf found (mirrorIndex pass s₀) }
        (fun id hid row hrow => by
          change s₁.row? id = some row at hrow
          rw [hrows hid] at hrow
          exact hstored row (List.mem_of_find?_eq_some hrow))
      have htakes : (∀ id ∈ pending found (mirrorIndex pass s₀), ∀ row, s₁.row? id = some row →
            Takes lib schema pass s₁.receipts row (chosen found (mirrorIndex pass s₀) id)) ↔
          Settleable lib schema pass s₀ found := by
        rw [hadded.receipts]
        constructor
        · intro h
          exact ⟨hpaths, fun id hid row hrow => h id hid row ((hrows hid).trans hrow)⟩
        · intro h id hid row hrow
          exact h.takes id hid row ((hrows hid).symm.trans hrow)
      exact returns_iff_wp.symm.trans (hupdates.trans htakes)
    · rw [if_pos (by simpa [List.any_eq_true] using hpaths)]
      exact ⟨fun h => h.elim, fun h => absurd h.collisions hpaths⟩

/-- **What stops a pass**: over a walk, with PostgreSQL refusing as data what its columns do not
take, a pass returns and settles every note it has an answer for exactly when no content it
meets is refused. -/
theorem reconcileOnce_converges_iff {pass : Pass} {walk : List Sighting} {s : State}
    (hkeyed : s.Keyed) (hstored : ∀ row ∈ s.rows, rowAdmitted row = true)
    (hdb : RefusesAsData db) (hwalk : pass.walk = some walk) :
    Converges lib db schema settings pass s ↔
      ∃ rows, Storable lib schema settings pass walk s rows := by
  have hadded := recovered_added lib schema pass s
  have hrun {rows : List Row} (hrun : recoverRows lib schema pass s = .ok () (s.seeded rows)) :
      recovered lib schema pass s = s.seeded rows := by
    rw [recovered, hrun, finalState]
  have hseeded {rows : List Row} (hfits : ∀ row ∈ rows, rowAdmitted row = true) :
      ∀ row ∈ (s.seeded rows).rows, rowAdmitted row = true := by
    intro row hrow
    rcases List.mem_append.1 hrow with hrow | hrow
    · exact hstored row hrow
    · exact hfits row hrow
  constructor
  · rintro ⟨counts, s', hreturned, -⟩
    have hreturns : Returns (reconcileOnce lib db schema settings pass) s := ⟨counts, s', hreturned⟩
    have hfirst := hreturns
    unfold reconcileOnce at hfirst
    obtain ⟨_, s₀, hrecover, -⟩ := returns_bind.1 hfirst
    obtain ⟨rows, hrecovers, hfits, rfl⟩ := recoverRows_eq_ok.1 hrecover
    have hkeyed₀ : (s.seeded rows).Keyed := hrun hrecover ▸ hadded.keyed hkeyed
    obtain ⟨hlegible, hnotes⟩ :=
      (recovered_returns hkeyed₀ (hseeded hfits) hdb hwalk hrecover).1 hreturns
    exact ⟨rows, ⟨hrecovers, hfits, hlegible, hnotes⟩⟩
  · rintro ⟨rows, h⟩
    have hrecover : recoverRows lib schema pass s = .ok () (s.seeded rows) :=
      recoverRows_eq_ok.2 ⟨rows, h.recovers, h.fits, rfl⟩
    have hkeyed₀ : (s.seeded rows).Keyed := hrun hrecover ▸ hadded.keyed hkeyed
    exact converges_of_returns hkeyed
      ((recovered_returns hkeyed₀ (hseeded h.fits) hdb hwalk hrecover).2 ⟨h.legible, h.notes⟩)

end Pass

section Reviewed

/-- The file of the one note the mirror knows, reviewed with these sources. -/
def reviewedFile (sources : String) : File :=
  { path := PyStr.lit "a.md", fileName := PyStr.lit "a.md", mtime := 0
    data := .utf8 ("---\nid: A\nreviewed: true\nsources: " ++ sources ++ "\n---\nbody\n").toList }

def reviewedPass (sources : String) : Pass :=
  plainWorld.pass (cheapTurn 1) [reviewedFile sources]

theorem oneNote_keyed : oneNote.Keyed := List.nodup_singleton _

theorem oneNote_stored : ∀ row ∈ oneNote.rows, rowAdmitted row = true := by
  intro row hrow
  obtain rfl := List.mem_singleton.1 hrow
  decide +kernel

/-- A note reviewed with one source is taken. -/
theorem reviewed_note_storable :
    ∃ rows, Storable plainWorld.lib plainWorld.schema plainWorld.settings (reviewedPass "s")
      [(reviewedFile "s").sighting 1] oneNote rows := by
  have hreturned : returned (reconcileOnce plainWorld.lib plainWorld.db plainWorld.schema
      plainWorld.settings (reviewedPass "s") oneNote) = true := by decide +kernel
  have hwalk : (reviewedPass "s").walk = some [(reviewedFile "s").sighting 1] := rfl
  have hdb : RefusesAsData plainWorld.db := fun _ _ => rfl
  have hiff := @reconcileOnce_converges_iff plainWorld.lib plainWorld.db plainWorld.schema
    plainWorld.settings _ _ _ oneNote_keyed oneNote_stored hdb hwalk
  exact hiff.1 (converges_of_returns oneNote_keyed (exists_of_returned hreturned))

/-- A note reviewed with no sources under their key stops the pass. -/
theorem empty_sources_stop_pass :
    ¬ ∀ (world : Surroundings) (turn : Turn) (tree : Tree) (s : State), s.Keyed →
      (∀ row ∈ s.rows, rowAdmitted row = true) → RefusesAsData world.db →
        Converges world.lib world.db world.schema world.settings (world.pass turn tree) s := by
  intro hall
  have hdb : RefusesAsData plainWorld.db := fun _ _ => rfl
  obtain ⟨counts, s', hrun, -⟩ :=
    hall plainWorld (cheapTurn 1) [reviewedFile ""] oneNote oneNote_keyed oneNote_stored hdb
  have hraised : returned (reconcileOnce plainWorld.lib plainWorld.db plainWorld.schema
      plainWorld.settings (plainWorld.pass (cheapTurn 1) [reviewedFile ""]) oneNote) = false := by
    decide +kernel
  rw [hrun] at hraised
  cases hraised

end Reviewed

end Coppermind.Reconciler
