import Mathlib.Data.List.Lex
import Coppermind.Notes.Listing

/-!
# What the pages of a listing hold

`Listed` says which summaries a query finds in a snapshot. A page holds the first of them behind
its cursor, however many rows a batch dropped and however many reads rejected a candidate, and
following the cursors the page that passes an identifier decides whether its note is returned.
-/

namespace Coppermind.Notes

open Coppermind.Lib

section Rows

variable (query : NoteQuery) (snapshot : Snapshot)

/-- The filters keep the row. -/
def keeps (row : Row) : Bool := matchesQuery (mirroredSummary row) query.toCriteria

def candidateOf (row : Row) : Candidate := (row.state, mirroredSummary row)

/-- What the reads leave of a candidate. -/
def offered (candidate : Candidate) : Option NoteSummary :=
  if candidate.1 = .ok then
    match snapshot.reading candidate.2.id with
    | .read => some (withFiling snapshot candidate.2)
    | _ => none
  else some (withFiling snapshot candidate.2)

/-- What a listing makes of some rows. -/
def found (rows : List Row) : List NoteSummary :=
  (rows.filter (keeps query)).filterMap fun row => offered snapshot (candidateOf row)

theorem found_append (seen unseen : List Row) :
    found query snapshot (seen ++ unseen) = found query snapshot seen ++
      found query snapshot unseen := by
  rw [found, List.filter_append, List.filterMap_append]
  rfl

/-- **One batch**: what it saw, and why it stopped. -/
theorem sift_spec {needed : Nat} (rows : List Row) (after : Option NoteId)
    (candidates : List Candidate) (hneeded : candidates.length < needed) :
    ∃ seen unseen, rows = seen ++ unseen ∧
      (sift query needed rows after candidates).1 = Keyset.reached (·.id) after seen ∧
      (sift query needed rows after candidates).2.1 =
        candidates ++ (seen.filter (keeps query)).map candidateOf ∧
      ((sift query needed rows after candidates).2.2 = true →
        (sift query needed rows after candidates).2.1.length = needed) ∧
      ((sift query needed rows after candidates).2.2 = false →
        unseen = [] ∧ (sift query needed rows after candidates).2.1.length < needed) := by
  induction rows generalizing after candidates with
  | nil =>
    refine ⟨[], [], rfl, rfl, (List.append_nil _).symm, fun h => ?_, fun _ => ⟨rfl, hneeded⟩⟩
    cases h
  | cons row rows ih =>
    simp only [sift]
    by_cases hkeep : matchesQuery (mirroredSummary row) query.toCriteria = true
    · have hkeeps : keeps query row = true := hkeep
      rw [if_pos hkeep]
      by_cases hfull : (candidates ++ [(row.state, mirroredSummary row)]).length = needed
      · rw [if_pos hfull]
        refine ⟨[row], rows, rfl, rfl, ?_, fun _ => hfull, fun h => ?_⟩
        · rw [List.filter_cons_of_pos hkeeps, List.filter_nil]
          rfl
        · cases h
      · rw [if_neg hfull]
        have hless : (candidates ++ [(row.state, mirroredSummary row)]).length < needed := by
          rw [List.length_append, List.length_singleton] at hfull ⊢
          omega
        obtain ⟨seen, unseen, hrows, hafter, hcandidates, hbroke, hended⟩ :=
          ih (some row.id) _ hless
        refine ⟨row :: seen, unseen, by rw [hrows, List.cons_append], ?_, ?_, hbroke, hended⟩
        · rw [hafter, Keyset.reached_cons]
        · rw [hcandidates, List.filter_cons_of_pos hkeeps, List.map_cons, List.append_assoc]
          rfl
    · have hkeeps : ¬keeps query row = true := hkeep
      rw [if_neg hkeep]
      obtain ⟨seen, unseen, hrows, hafter, hcandidates, hbroke, hended⟩ :=
        ih (some row.id) candidates hneeded
      refine ⟨row :: seen, unseen, by rw [hrows, List.cons_append], ?_, ?_, hbroke, hended⟩
      · rw [hafter, Keyset.reached_cons]
      · rw [hcandidates, List.filter_cons_of_neg hkeeps]

/-- **The reads** that do not raise leave what is offered. -/
theorem readBack_ok {candidates : List Candidate} {before after : List NoteSummary}
    (h : readBack snapshot candidates before = .ok after) :
    after = before ++ candidates.filterMap (offered snapshot) := by
  induction candidates generalizing before with
  | nil =>
    obtain rfl := Except.ok.inj h
    exact (List.append_nil _).symm
  | cons candidate candidates ih =>
    obtain ⟨state, summary⟩ := candidate
    rw [readBack] at h
    by_cases hok : state = .ok
    · rw [if_pos hok] at h
      cases hread : snapshot.reading summary.id with
      | read =>
        have hoffered : offered snapshot (state, summary) = some (withFiling snapshot summary) := by
          simp only [offered, if_pos hok, hread]
        rw [hread] at h
        rw [ih h, List.filterMap_cons_some hoffered, List.append_assoc]
        rfl
      | notFound =>
        have hoffered : offered snapshot (state, summary) = none := by
          simp only [offered, if_pos hok, hread]
        rw [hread] at h
        rw [ih h, List.filterMap_cons_none hoffered]
      | noteUnparseable =>
        have hoffered : offered snapshot (state, summary) = none := by
          simp only [offered, if_pos hok, hread]
        rw [hread] at h
        rw [ih h, List.filterMap_cons_none hoffered]
      | unavailable rootPresent =>
        have hoffered : offered snapshot (state, summary) = none := by
          simp only [offered, if_pos hok, hread]
        rw [hread] at h
        cases rootPresent with
        | false => cases h
        | true => rw [ih h, List.filterMap_cons_none hoffered]
      | metadataUnavailable =>
        rw [hread] at h
        cases h
    · have hoffered : offered snapshot (state, summary) = some (withFiling snapshot summary) := by
        simp only [offered, if_neg hok]
      rw [if_neg hok] at h
      rw [ih h, List.filterMap_cons_some hoffered, List.append_assoc]
      rfl

end Rows

section Transactions

variable {query : NoteQuery} {snapshot : Snapshot} {ρ : Type} [LinearOrder ρ] {host : ListHost ρ}
  {sorted : List Row}

/-- The rows of a table behind an identifier. -/
def remaining (host : ListHost ρ) (sorted : List Row) (after : Option NoteId) : List Row :=
  Keyset.behind (rowKey host) (after.map host.collate) sorted

omit [LinearOrder ρ] in
theorem map_reached (after : Option NoteId) (seen : List Row) :
    (Keyset.reached (·.id) after seen).map host.collate =
      Keyset.reached (rowKey host) (after.map host.collate) seen := by
  unfold Keyset.reached
  cases seen.getLast? <;> rfl

/-- Behind the rows seen stand those not seen. -/
theorem remaining_reached (hordered : Keyset.Ordered (rowKey host) sorted)
    {after : Option NoteId} {seen unseen : List Row}
    (hcut : remaining host sorted after = seen ++ unseen) :
    remaining host sorted (Keyset.reached (·.id) after seen) = unseen := by
  unfold remaining
  rw [map_reached]
  exact Keyset.behind_reached hordered hcut

/-- What a transaction leaves that stood before `rows`: the rows it saw and those it did not. -/
structure Gathers (query : NoteQuery) (needed : Nat) (rows : List Row) (after : Option NoteId)
    (candidates : List Candidate) (gathered : Gathered) (seen unseen : List Row) : Prop where
  cut : rows = seen ++ unseen
  after : gathered.after = Keyset.reached (·.id) after seen
  candidates : gathered.candidates = candidates ++ (seen.filter (keeps query)).map candidateOf
  atMost : gathered.candidates.length ≤ needed
  exhausted : gathered.exhausted = true → unseen = []
  full : gathered.exhausted = false → gathered.candidates.length = needed

/-- What later batches saw follows what the first one saw. -/
theorem Gathers.cons {needed : Nat} {rows rest first seen unseen : List Row}
    {after : Option NoteId} {candidates : List Candidate} {gathered : Gathered}
    (hcut : rows = first ++ rest)
    (h : Gathers query needed rest (Keyset.reached (·.id) after first)
      (candidates ++ (first.filter (keeps query)).map candidateOf) gathered seen unseen) :
    Gathers query needed rows after candidates gathered (first ++ seen) unseen where
  cut := by rw [hcut, h.cut, List.append_assoc]
  after := by rw [h.after, Keyset.reached_append]
  candidates := by rw [h.candidates, List.filter_append, List.map_append, List.append_assoc]
  atMost := h.atMost
  exhausted := h.exhausted
  full := h.full

/-- **One transaction**: what its batches saw together, and why it stopped. -/
theorem gather_spec (hordered : Keyset.Ordered (rowKey host) sorted) {batch needed fuel : Nat}
    {after : Option NoteId} {candidates : List Candidate} {gathered : Gathered}
    (hlength : candidates.length ≤ needed)
    (h : gather query (fun after => (remaining host sorted after).take batch) batch needed fuel
      after candidates = some gathered) :
    ∃ seen unseen, Gathers query needed (remaining host sorted after) after candidates gathered
      seen unseen := by
  induction fuel generalizing after candidates with
  | zero => cases h
  | succ fuel ih =>
    rw [gather] at h
    by_cases hneeded : candidates.length < needed
    · rw [if_pos hneeded] at h
      obtain ⟨seen, unseen, hbatch, hafter, hcandidates, hbroke, hended⟩ :=
        sift_spec query ((remaining host sorted after).take batch) after candidates hneeded
      have hcut : remaining host sorted after =
          seen ++ (unseen ++ (remaining host sorted after).drop batch) := by
        rw [← List.append_assoc, ← hbatch, List.take_append_drop]
      have hrest := remaining_reached hordered hcut
      generalize hsift : sift query needed ((remaining host sorted after).take batch) after
        candidates = sifted at h hafter hcandidates hbroke hended
      obtain ⟨after', candidates', broke⟩ := sifted
      simp only at hafter hcandidates hbroke hended
      subst hafter hcandidates
      have hmore : gather query
          (fun after => (remaining host sorted after).take batch) batch needed fuel
          (Keyset.reached (·.id) after seen)
          (candidates ++ (seen.filter (keeps query)).map candidateOf) = some gathered →
          (candidates ++ (seen.filter (keeps query)).map candidateOf).length ≤ needed →
          ∃ seen unseen, Gathers query needed (remaining host sorted after) after candidates
            gathered seen unseen := by
        intro hgather hlength
        obtain ⟨seen', unseen', hgathers⟩ := ih hlength hgather
        rw [hrest] at hgathers
        exact ⟨seen ++ seen', unseen', hgathers.cons hcut⟩
      cases broke with
      | true =>
        simp only [hsift] at h
        exact hmore h (le_of_eq (hbroke rfl))
      | false =>
        simp only [hsift] at h
        obtain ⟨hunseen, hless⟩ := hended rfl
        by_cases hshort : ((remaining host sorted after).take batch).length < batch
        · rw [if_pos hshort] at h
          obtain rfl := Option.some.inj h
          have hdrop : (remaining host sorted after).drop batch = [] := by
            rw [List.length_take] at hshort
            exact List.drop_eq_nil_of_le (by omega)
          rw [hunseen, hdrop] at hcut
          refine ⟨seen, [], hcut, rfl, rfl, le_of_lt hless, fun _ => rfl, fun hfalse => ?_⟩
          cases hfalse
        · rw [if_neg hshort] at h
          exact hmore h (le_of_lt hless)
    · rw [if_neg hneeded] at h
      obtain rfl := Option.some.inj h
      refine ⟨[], remaining host sorted after, rfl, rfl, (List.append_nil _).symm, hlength,
        fun htrue => ?_, fun _ => Nat.le_antisymm hlength (Nat.le_of_not_lt hneeded)⟩
      cases htrue

/-- A transaction ends: each of its batches but the last is full. -/
theorem gather_isSome (hordered : Keyset.Ordered (rowKey host) sorted) {batch needed fuel : Nat}
    (hbatch : 0 < batch) {after : Option NoteId} {candidates : List Candidate}
    (hfuel : (remaining host sorted after).length + 2 ≤ fuel) :
    (gather query (fun after => (remaining host sorted after).take batch) batch needed fuel
      after candidates).isSome = true := by
  induction fuel generalizing after candidates with
  | zero => omega
  | succ fuel ih =>
    rw [gather]
    by_cases hneeded : candidates.length < needed
    · rw [if_pos hneeded]
      obtain ⟨seen, unseen, hrows, hafter, hcandidates, hbroke, hended⟩ :=
        sift_spec query ((remaining host sorted after).take batch) after candidates hneeded
      generalize hsift : sift query needed ((remaining host sorted after).take batch) after
        candidates = sifted at hafter hcandidates hbroke hended
      obtain ⟨after', candidates', broke⟩ := sifted
      simp only at hafter hcandidates hbroke hended
      cases broke with
      | true =>
        simp only [hsift]
        obtain ⟨fuel, rfl⟩ : ∃ n, fuel = n + 1 := ⟨fuel - 1, by omega⟩
        have hfull : ¬candidates'.length < needed := by
          rw [hbroke rfl]
          exact Nat.lt_irrefl _
        simp only [gather, if_neg hfull, Option.isSome_some]
      | false =>
        simp only [hsift]
        by_cases hshort : ((remaining host sorted after).take batch).length < batch
        · rw [if_pos hshort]
          rfl
        · rw [if_neg hshort]
          obtain ⟨rfl, -⟩ := hended rfl
          rw [List.append_nil] at hrows
          have hcut : remaining host sorted after =
              seen ++ (remaining host sorted after).drop batch := by
            rw [← hrows, List.take_append_drop]
          apply ih
          rw [hafter, remaining_reached hordered hcut, List.length_drop]
          rw [List.length_take] at hshort
          omega
    · rw [if_neg hneeded]
      rfl

end Transactions

section Page

variable {query : NoteQuery} {snapshot : Snapshot} {ρ : Type} [LinearOrder ρ] {host : ListHost ρ}
  {predicate : Row → Bool}

/-- No two rows share a key, so the selected rows are strictly in order. -/
theorem ordered_selected : Keyset.Ordered (rowKey host) (selected snapshot host predicate) := by
  have hsorted : (selected snapshot host predicate).Pairwise
      fun r s => rowKey host r ≤ rowKey host s :=
    List.pairwise_insertionSort _ _
  have hdistinct : (selected snapshot host predicate).Pairwise fun r s => r.id ≠ s.id := by
    have hrows : snapshot.rows.Pairwise fun r s => r.id ≠ s.id :=
      List.pairwise_map.1 snapshot.distinct
    have hperm := (List.perm_insertionSort (fun r s => rowKey host r ≤ rowKey host s)
      (snapshot.rows.filter predicate)).symm
    exact (hperm.pairwise_iff fun h => Ne.symm h).1 (hrows.filter _)
  refine hsorted.imp₂ (fun r s hle hne => ?_) hdistinct
  exact lt_of_le_of_ne hle fun heq => hne (host.collate_injective heq)

theorem length_selected_le : (selected snapshot host predicate).length ≤ snapshot.rows.length := by
  rw [selected, List.length_insertionSort]
  exact List.length_filter_le _ _

theorem length_remaining_le (after : Option NoteId) :
    (remaining host (selected snapshot host predicate) after).length ≤ snapshot.rows.length :=
  Nat.le_trans (List.length_filter_le _ _) length_selected_le

theorem select_eq : select query snapshot host predicate = fun after =>
    (remaining host (selected snapshot host predicate) after).take (batchSize query host) := rfl

/-- **The transactions of a page**: they find notes until one more than the page holds is there, or
until no row is left. -/
theorem collect_spec (hpredicate : predicates query snapshot = .ok predicate) {fuel rounds : Nat}
    {after : Option NoteId} {before result : List NoteSummary}
    (hlength : before.length ≤ wanted query)
    (h : collect query snapshot host fuel rounds after before = some (.ok result)) :
    ∃ seen unseen, remaining host (selected snapshot host predicate) after = seen ++ unseen ∧
      result = before ++ found query snapshot seen ∧ result.length ≤ wanted query ∧
      (result.length < wanted query → unseen = []) := by
  induction rounds generalizing after before with
  | zero => cases h
  | succ rounds ih =>
    rw [collect] at h
    by_cases hneeded : before.length < wanted query
    · rw [if_pos hneeded, hpredicate] at h
      by_cases hanswers : (!snapshot.answers) = true
      · rw [if_pos hanswers] at h
        cases h
      · rw [if_neg hanswers] at h
        simp only [select_eq] at h
        cases hgather : gather query (fun after =>
            (remaining host (selected snapshot host predicate) after).take (batchSize query host))
            (batchSize query host) (wanted query - before.length) fuel after [] with
        | none =>
          rw [hgather] at h
          cases h
        | some gathered =>
          rw [hgather] at h
          simp only at h
          obtain ⟨seen, unseen, hgathers⟩ :=
            gather_spec ordered_selected (Nat.zero_le _) hgather
          by_cases hdown : (!snapshot.rootPresent || !snapshot.indexed) = true
          · rw [if_pos hdown] at h
            cases h
          · rw [if_neg hdown] at h
            cases hread : readBack snapshot gathered.candidates before with
            | error error =>
              rw [hread] at h
              cases h
            | ok kept =>
              rw [hread] at h
              simp only at h
              have hkept : kept = before ++ found query snapshot seen := by
                rw [readBack_ok snapshot hread, hgathers.candidates, List.nil_append,
                  List.filterMap_map]
                rfl
              have hatMost : kept.length ≤ wanted query := by
                have hle : (gathered.candidates.filterMap (offered snapshot)).length ≤
                    gathered.candidates.length := List.length_filterMap_le _ _
                have hneed := hgathers.atMost
                rw [readBack_ok snapshot hread, List.length_append]
                omega
              by_cases hexhausted : gathered.exhausted = true
              · rw [if_pos hexhausted] at h
                obtain rfl := Except.ok.inj (Option.some.inj h)
                exact ⟨seen, unseen, hgathers.cut, hkept, hatMost,
                  fun _ => hgathers.exhausted hexhausted⟩
              · rw [if_neg hexhausted] at h
                obtain ⟨seen', unseen', hcut, hresult, hle, hless⟩ := ih hatMost h
                rw [hgathers.after, remaining_reached ordered_selected hgathers.cut] at hcut
                refine ⟨seen ++ seen', unseen', ?_, ?_, hle, hless⟩
                · rw [hgathers.cut, hcut, List.append_assoc]
                · rw [hresult, hkept, found_append, List.append_assoc]
    · rw [if_neg hneeded] at h
      obtain rfl := Except.ok.inj (Option.some.inj h)
      refine ⟨[], remaining host (selected snapshot host predicate) after, rfl, ?_, hlength,
        fun hless => absurd hless hneeded⟩
      exact (List.append_nil _).symm

/-- A page that needs a transaction and returns has its clauses. -/
theorem predicates_of_collect {fuel rounds : Nat} {after : Option NoteId}
    {result : List NoteSummary}
    (h : collect query snapshot host fuel rounds after [] = some (.ok result)) :
    ∃ predicate, predicates query snapshot = .ok predicate := by
  cases rounds with
  | zero => cases h
  | succ rounds =>
    have hzero : ([] : List NoteSummary).length < wanted query := Nat.succ_pos _
    rw [collect, if_pos hzero] at h
    cases hpredicate : predicates query snapshot with
    | error error =>
      rw [hpredicate] at h
      split at h <;> cases h
    | ok predicate => exact ⟨predicate, rfl⟩

/-- The transactions of a page end: each but the last sees a row. -/
theorem collect_isSome {fuel rounds : Nat} {after : Option NoteId} {before : List NoteSummary}
    (hlength : before.length ≤ wanted query) (hfuel : snapshot.rows.length + 2 ≤ fuel)
    (hrounds : ∀ predicate, predicates query snapshot = .ok predicate →
      (remaining host (selected snapshot host predicate) after).length < rounds)
    (hpos : 0 < rounds) :
    (collect query snapshot host fuel rounds after before).isSome = true := by
  induction rounds generalizing after before with
  | zero => exact absurd hpos (Nat.lt_irrefl 0)
  | succ rounds ih =>
    rw [collect]
    by_cases hneeded : before.length < wanted query
    · rw [if_pos hneeded]
      cases hpredicate : predicates query snapshot with
      | error error => split <;> rfl
      | ok predicate =>
        have hsome : (gather query (fun after =>
            (remaining host (selected snapshot host predicate) after).take (batchSize query host))
            (batchSize query host) (wanted query - before.length) fuel after []).isSome = true := by
          apply gather_isSome ordered_selected
          · exact Nat.lt_of_lt_of_le (Nat.succ_pos _) (Nat.le_max_left _ _)
          · have hle := @length_remaining_le snapshot _ _ host predicate after
            omega
        obtain ⟨gathered, hgather⟩ := Option.isSome_iff_exists.1 hsome
        obtain ⟨seen, unseen, hgathers⟩ := gather_spec ordered_selected (Nat.zero_le _) hgather
        have hread : ∀ kept, readBack snapshot gathered.candidates before = .ok kept →
            gathered.exhausted = false →
            (collect query snapshot host fuel rounds gathered.after kept).isSome = true := by
          intro kept hread hexhausted
          have hfull := hgathers.full hexhausted
          have hseen : seen ≠ [] := by
            rintro rfl
            rw [hgathers.candidates, List.filter_nil, List.map_nil, List.append_nil,
              List.length_nil] at hfull
            omega
          have hcut := congrArg List.length hgathers.cut
          rw [List.length_append] at hcut
          have hbound := hrounds predicate hpredicate
          have hpositive := List.length_pos_iff.2 hseen
          apply ih
          · have hle : (gathered.candidates.filterMap (offered snapshot)).length ≤
                gathered.candidates.length := List.length_filterMap_le _ _
            have hneed := hgathers.atMost
            rw [readBack_ok snapshot hread, List.length_append]
            omega
          · intro predicate' hpredicate'
            obtain rfl := Except.ok.inj (hpredicate.symm.trans hpredicate')
            rw [hgathers.after, remaining_reached ordered_selected hgathers.cut]
            omega
          · omega
        split
        · rfl
        · simp only [select_eq, hgather]
          split
          · rfl
          · cases hkept : readBack snapshot gathered.candidates before with
            | error error => rfl
            | ok kept =>
              simp only
              cases hexhausted : gathered.exhausted with
              | true => rfl
              | false => exact hread kept hkept hexhausted
    · rw [if_neg hneeded]
      rfl

end Page

/-- A query finds a summary in a snapshot: that of a row its clauses and filters keep, whose note
can be read when its state is `ok`. -/
def Listed (query : NoteQuery) (snapshot : Snapshot) (summary : NoteSummary) : Prop :=
  ∃ predicate, predicates query snapshot = .ok predicate ∧
    ∃ row ∈ snapshot.rows, predicate row = true ∧
      matchesQuery (mirroredSummary row) query.toCriteria = true ∧
      (row.state = .ok → snapshot.reading row.id = .read) ∧
      summary = withFiling snapshot (mirroredSummary row)

/-- The query with another cursor. -/
def NoteQuery.resume (query : NoteQuery) (cursor : Option Text) : NoteQuery :=
  { query with cursor := cursor }

section Follow

variable {ρ : Type} [LinearOrder ρ] (host : ListHost ρ) (query : NoteQuery)

/-- The key of a summary. -/
def summaryKey (summary : NoteSummary) : ρ := host.collate summary.id

/-- The pages from a cursor to the first without one, each served from a snapshot of its own. -/
inductive Follows : Option Text → List (Snapshot × Page) → Prop
  | last {cursor : Option Text} {snapshot : Snapshot} {page : Page} :
      listNotes (query.resume cursor) snapshot host = some (.ok page) →
      page.nextCursor = none → Follows cursor [(snapshot, page)]
  | more {cursor : Option Text} {snapshot : Snapshot} {page : Page} {next : Text}
      {served : List (Snapshot × Page)} :
      listNotes (query.resume cursor) snapshot host = some (.ok page) →
      page.nextCursor = some next → Follows (some next) served →
      Follows cursor ((snapshot, page) :: served)

/-- The page reaches an identifier: it is the last one, or ends with the identifier or behind. -/
def passing (id : NoteId) (served : Snapshot × Page) : Bool :=
  served.2.nextCursor.isNone ||
    served.2.items.getLast?.all fun last => host.collate id ≤ host.collate last.id

/-- The summaries a snapshot has for the query, in order. -/
def listing (snapshot : Snapshot) : List NoteSummary :=
  match predicates query snapshot with
  | .ok predicate => found query snapshot (selected snapshot host predicate)
  | .error _ => []

def leafOf (served : Snapshot × Page) : Keyset.Leaf NoteSummary ρ where
  table := listing host query served.1
  items := served.2.items
  next :=
    if served.2.nextCursor.isSome then served.2.items.getLast?.map (summaryKey host) else none

variable {host query} {snapshot : Snapshot} {page : Page}

@[simp] theorem withFiling_id (summary : NoteSummary) :
    (withFiling snapshot summary).id = summary.id := rfl

theorem offered_some {row : Row} {summary : NoteSummary}
    (h : offered snapshot (candidateOf row) = some summary) :
    (row.state = .ok → snapshot.reading row.id = .read) ∧
      summary = withFiling snapshot (mirroredSummary row) := by
  unfold offered at h
  by_cases hok : (candidateOf row).1 = .ok
  · rw [if_pos hok] at h
    split at h
    · next hread => exact ⟨fun _ => hread, (Option.some.inj h).symm⟩
    · cases h
  · rw [if_neg hok] at h
    exact ⟨fun hstate => absurd hstate hok, (Option.some.inj h).symm⟩

theorem offered_of_read {row : Row} (h : row.state = .ok → snapshot.reading row.id = .read) :
    offered snapshot (candidateOf row) = some (withFiling snapshot (mirroredSummary row)) := by
  unfold offered
  by_cases hok : (candidateOf row).1 = .ok
  · have hread : snapshot.reading (candidateOf row).2.id = .read := h hok
    rw [if_pos hok, hread]
    rfl
  · rw [if_neg hok]
    rfl

/-- The listing holds what the query finds. -/
theorem mem_listing {summary : NoteSummary} :
    summary ∈ listing host query snapshot ↔ Listed query snapshot summary := by
  unfold listing Listed
  cases hpredicate : predicates query snapshot with
  | error error => simp
  | ok predicate =>
    simp only [found, List.mem_filterMap, List.mem_filter, selected, List.mem_insertionSort]
    constructor
    · rintro ⟨row, ⟨⟨hrow, hclause⟩, hkeep⟩, hoffered⟩
      obtain ⟨hread, rfl⟩ := offered_some hoffered
      exact ⟨predicate, rfl, row, hrow, hclause, hkeep, hread, rfl⟩
    · rintro ⟨predicate', hpredicate', row, hrow, hclause, hkeep, hread, rfl⟩
      obtain rfl := Except.ok.inj hpredicate'
      exact ⟨row, ⟨⟨hrow, hclause⟩, hkeep⟩, offered_of_read hread⟩

theorem offered_id {row : Row} {summary : NoteSummary}
    (h : offered snapshot (candidateOf row) = some summary) : summary.id = row.id := by
  obtain ⟨-, rfl⟩ := offered_some h
  rfl

/-- What is found behind a key are the summaries behind it. -/
theorem found_behind (after : Option ρ) (rows : List Row) :
    found query snapshot (Keyset.behind (rowKey host) after rows) =
      Keyset.behind (summaryKey host) after (found query snapshot rows) := by
  unfold found Keyset.behind
  rw [List.filter_comm, List.filterMap_filter, List.filter_filterMap]
  apply List.filterMap_congr
  intro row _
  cases hoffered : offered snapshot (candidateOf row) with
  | none => simp
  | some summary =>
    have hkey : summaryKey host summary = rowKey host row :=
      congrArg host.collate (offered_id hoffered)
    rw [Option.filter_some, hkey]

theorem ordered_listing : Keyset.Ordered (summaryKey host) (listing host query snapshot) := by
  unfold listing
  split
  · next predicate hpredicate =>
    have hrows := (@ordered_selected snapshot _ _ host predicate).filter (keeps query)
    apply List.pairwise_filterMap.2
    refine hrows.imp fun {r s} hlt t ht u hu => ?_
    rw [summaryKey, summaryKey, offered_id ht, offered_id hu]
    exact hlt
  · exact List.Pairwise.nil

/-- **A page** holds the first summaries behind its cursor, and hands out a cursor exactly if there
are more. -/
theorem listNotes_ok (h : listNotes query snapshot host = some (.ok page)) :
    ∃ after, resumeKey query snapshot host = .ok after ∧
      Keyset.IsPage (summaryKey host) query.limit (after.map host.collate)
        (leafOf host query (snapshot, page)) ∧
      (∀ next, page.nextCursor = some next → ∃ last, page.items.getLast? = some last ∧
        next = encodeNoteCursor last.id (cursorContext query snapshot host)) := by
  rw [listNotes] at h
  cases hresume : resumeKey query snapshot host with
  | error error =>
    rw [hresume] at h
    cases h
  | ok after =>
    refine ⟨after, rfl, ?_⟩
    rw [hresume] at h
    simp only at h
    cases hcollect : collect query snapshot host (snapshot.rows.length + 2)
        (snapshot.rows.length + 2) after [] with
    | none =>
      rw [hcollect] at h
      cases h
    | some collected =>
      cases collected with
      | error error =>
        rw [hcollect] at h
        cases h
      | ok result =>
        rw [hcollect] at h
        simp only at h
        by_cases hrevision : (query.filter.isSome &&
            snapshot.revisionAfter != snapshot.revision) = true
        · rw [if_pos hrevision] at h
          cases h
        · rw [if_neg hrevision] at h
          obtain rfl := Except.ok.inj (Option.some.inj h)
          obtain ⟨predicate, hpredicate⟩ := predicates_of_collect hcollect
          obtain ⟨seen, unseen, hcut, hresult, hle, hless⟩ :=
            collect_spec hpredicate (Nat.zero_le _) hcollect
          rw [List.nil_append] at hresult
          -- What is found behind the cursor begins with what was collected.
          have hbehind : Keyset.behind (summaryKey host) (after.map host.collate)
              (listing host query snapshot) = result ++ found query snapshot unseen := by
            have hlisting : listing host query snapshot =
                found query snapshot (selected snapshot host predicate) := by
              unfold listing
              rw [hpredicate]
            rw [hlisting, ← found_behind, ← remaining, hcut, found_append, hresult]
          have hwanted : wanted query = query.limit + 1 := rfl
          have hmore : query.limit < (result ++ found query snapshot unseen).length ↔
              query.limit < result.length := by
            constructor
            · intro hlong
              by_contra hshort
              rw [hless (by omega)] at hlong
              rw [List.length_append] at hlong
              exact hshort hlong
            · intro hlong
              rw [List.length_append]
              omega
          have htake : (result ++ found query snapshot unseen).take query.limit =
              result.take query.limit := by
            by_cases hlong : query.limit < result.length
            · exact List.take_append_of_le_length (le_of_lt hlong)
            · rw [hless (by omega)]
              simp [found]
          refine ⟨⟨ordered_listing, ?_, ?_⟩, ?_⟩
          · show result.take query.limit = _
            rw [leafOf, hbehind, htake]
          · by_cases hlong : query.limit < result.length
            · simp only [leafOf, pageOf, hbehind, hmore, if_pos hlong]
              cases hlast : (result.take query.limit).getLast? <;> rfl
            · simp only [leafOf, pageOf, hbehind, hmore, if_neg hlong]
              rfl
          · intro next hnext
            simp only [pageOf] at hnext
            by_cases hlong : query.limit < result.length
            · rw [if_pos hlong] at hnext
              obtain ⟨last, hlast, rfl⟩ := Option.map_eq_some_iff.1 hnext
              exact ⟨last, hlast, rfl⟩
            · rw [if_neg hlong] at hnext
              cases hnext

/-- A page always comes back, or the error that stopped it. -/
theorem listNotes_isSome : (listNotes query snapshot host).isSome = true := by
  rw [listNotes]
  cases resumeKey query snapshot host with
  | error error => rfl
  | ok after =>
    have hsome : (collect query snapshot host (snapshot.rows.length + 2)
        (snapshot.rows.length + 2) after []).isSome = true := by
      apply collect_isSome (Nat.zero_le _) (Nat.le_refl _)
      · intro predicate _
        have hle := @length_remaining_le snapshot _ _ host predicate after
        omega
      · exact Nat.succ_pos _
    obtain ⟨result, hresult⟩ := Option.isSome_iff_exists.1 hsome
    simp only [hresult]
    cases result with
    | error error => rfl
    | ok result =>
      simp only
      split <;> rfl

/-- The identifier of what a query finds is stored text. -/
theorem Listed.scalars {summary : NoteSummary} (h : Listed query snapshot summary) :
    Scalars summary.id := by
  obtain ⟨predicate, -, row, hrow, -, -, -, rfl⟩ := h
  exact snapshot.scalars row hrow

omit [LinearOrder ρ] in
theorem scalars_cursorContext : ∀ s ∈ cursorContext query snapshot host, Scalars s := by
  intro s hs
  obtain ⟨filter, -, rfl⟩ := Option.map_eq_some_iff.1 hs
  exact host.digest_scalars _ _

/-- **Each cursor** stands for the last identifier of its page, under the context it was made in. -/
theorem decode_nextCursor (h : listNotes query snapshot host = some (.ok page)) {next : Text}
    (hnext : page.nextCursor = some next) :
    ∃ last, page.items.getLast? = some last ∧ next ≠ [] ∧ ∀ context,
      decodeNoteCursor host.toCursorHost next context =
        if cursorContext query snapshot host = context then .ok last.id
        else .error .filterCursorConflict := by
  obtain ⟨after, -, hpage, hcursor⟩ := listNotes_ok h
  obtain ⟨last, hlast, rfl⟩ := hcursor next hnext
  have hlisted := (hpage.mem_items (List.mem_of_getLast? hlast)).1
  have hscalars := (mem_listing.1 hlisted).scalars
  refine ⟨last, hlast, encodeNoteCursor_ne_nil hscalars scalars_cursorContext, ?_⟩
  exact decode_encodeNoteCursor host.toCursorHost hscalars scalars_cursorContext

/-- The pages served are pages resumed by key. -/
theorem Follows.keyset {cursor : Option Text} {served : List (Snapshot × Page)}
    (h : Follows host query cursor served) :
    ∃ after, (∀ first ∈ served.head?,
        resumeKey (query.resume cursor) first.1 host = .ok after) ∧
      Keyset.Follows (summaryKey host) query.limit (after.map host.collate)
        (served.map (leafOf host query)) := by
  induction h with
  | @last cursor snapshot page hlist hnext =>
    obtain ⟨after, hresume, hpage, -⟩ := listNotes_ok hlist
    refine ⟨after, ?_, .last hpage ?_⟩
    · rintro first ⟨⟩
      exact hresume
    · simp [leafOf, hnext]
  | @more cursor snapshot page next served hlist hnext hrest ih =>
    obtain ⟨after, hresume, hpage, -⟩ := listNotes_ok hlist
    obtain ⟨last, hlast, hne, hdecode⟩ := decode_nextCursor hlist hnext
    obtain ⟨after', hresume', hfollows⟩ := ih
    -- The next page resumes behind the last identifier of this one.
    have hafter : after' = some last.id := by
      obtain ⟨first, served', rfl⟩ : ∃ first served', served = first :: served' := by
        cases hrest with
        | last => exact ⟨_, _, rfl⟩
        | more => exact ⟨_, _, rfl⟩
      obtain ⟨c, next, rfl⟩ := List.exists_cons_of_ne_nil hne
      have hfirst : (decodeNoteCursor host.toCursorHost (c :: next)
          (cursorContext (query.resume (some (c :: next))) first.1 host)).map some = .ok after' :=
        hresume' first rfl
      rw [hdecode] at hfirst
      by_cases hsame : cursorContext (query.resume cursor) snapshot host =
          cursorContext (query.resume (some (c :: next))) first.1 host
      · rw [if_pos hsame] at hfirst
        exact (Except.ok.inj hfirst).symm
      · rw [if_neg hsame] at hfirst
        cases hfirst
    have hleaf : (leafOf host query (snapshot, page)).next = some (summaryKey host last) := by
      simp [leafOf, hnext, hlast]
    refine ⟨after, ?_, .more hpage hleaf ?_⟩
    · rintro first ⟨⟩
      exact hresume
    · rw [hafter] at hfollows
      exact hfollows

/-- What the pages hold, one after the other. -/
def returned (served : List (Snapshot × Page)) : List NoteSummary := served.flatMap (·.2.items)

theorem returned_leaves (served : List (Snapshot × Page)) :
    Keyset.returned (served.map (leafOf host query)) = returned served := by
  unfold Keyset.returned returned
  rw [List.flatMap_map]
  rfl

theorem passes_leafOf (summary : NoteSummary) (served : Snapshot × Page) :
    Keyset.passes (summaryKey host summary) (leafOf host query served) =
      passing host summary.id served := by
  unfold Keyset.passes passing leafOf
  cases served.2.nextCursor with
  | none => rfl
  | some next =>
    cases served.2.items.getLast? with
    | none => rfl
    | some last => rfl

/-- **Nothing skipped, nothing twice**: a listing comes back in the order of the identifiers, and
a note is in it exactly if the query finds it when the page that passes its identifier is served.
A note found at every page is in it once. Each cursor is its page's last identifier, under its own
context only. -/
theorem pages_complete (host : ListHost ρ) (query : NoteQuery) :
    (∀ cursor snapshot, (listNotes (query.resume cursor) snapshot host).isSome = true) ∧
    ∀ served, Follows host query none served →
      (returned served).Pairwise (fun s t => host.collate s.id < host.collate t.id) ∧
      (∀ summary, ∃ found, served.find? (passing host summary.id) = some found ∧
        (summary ∈ returned served ↔ Listed query found.1 summary)) ∧
      (∀ id, (∀ page ∈ served, ∃ summary, Listed query page.1 summary ∧ summary.id = id) →
        ((returned served).map (·.id)).count id = 1) ∧
      (∀ page ∈ served, ∀ next, page.2.nextCursor = some next →
        ∃ last, page.2.items.getLast? = some last ∧ ∀ context,
          decodeNoteCursor host.toCursorHost next context =
            if cursorContext query page.1 host = context then .ok last.id
            else .error .filterCursorConflict) := by
  refine ⟨fun _ _ => listNotes_isSome, fun served hfollows => ?_⟩
  obtain ⟨after, hresume, hkeyset⟩ := hfollows.keyset
  have hstart : after = none := by
    cases hfollows with
    | last => exact (Except.ok.inj (hresume _ rfl)).symm
    | more => exact (Except.ok.inj (hresume _ rfl)).symm
  subst hstart
  have hordered : (returned served).Pairwise fun s t => host.collate s.id < host.collate t.id := by
    rw [← @returned_leaves ρ _ host query]
    exact hkeyset.ordered
  have hpassing : ∀ summary, ∃ found, served.find? (passing host summary.id) = some found ∧
      (summary ∈ returned served ↔ Listed query found.1 summary) := by
    intro summary
    obtain ⟨leaf, hleaf, hiff⟩ := hkeyset.mem_returned_iff query.positive (r := summary)
      (fun a ha => nomatch ha)
    rw [List.find?_map] at hleaf
    obtain ⟨found, hfound, rfl⟩ := Option.map_eq_some_iff.1 hleaf
    have hsame : Keyset.passes (summaryKey host summary) ∘ leafOf host query =
        passing host summary.id := funext (passes_leafOf summary)
    rw [hsame] at hfound
    rw [returned_leaves] at hiff
    exact ⟨found, hfound, hiff.trans mem_listing⟩
  refine ⟨hordered, hpassing, ?_, ?_⟩
  · intro id hall
    apply List.count_eq_one_of_mem
    · exact List.pairwise_map.2 (hordered.imp fun {s t} hlt heq =>
        absurd (congrArg host.collate heq) (ne_of_lt hlt))
    · -- Which page passes the identifier does not depend on the rest of the summary.
      obtain ⟨first, hfirst⟩ : ∃ first, first ∈ served := by
        cases hfollows with
        | last => exact ⟨_, List.mem_cons_self⟩
        | more => exact ⟨_, List.mem_cons_self⟩
      obtain ⟨seen, -, rfl⟩ := hall first hfirst
      obtain ⟨found, hfound, -⟩ := hpassing seen
      obtain ⟨summary, hlisted, hid⟩ := hall found (List.mem_of_find?_eq_some hfound)
      obtain ⟨found', hfound', hiff⟩ := hpassing summary
      rw [hid, hfound] at hfound'
      obtain rfl := Option.some.inj hfound'
      exact List.mem_map.2 ⟨summary, hiff.2 hlisted, hid⟩
  · intro page hpage next hnext
    have hserved : ∃ cursor, listNotes (query.resume cursor) page.1 host = some (.ok page.2) := by
      clear hresume hkeyset hordered hpassing
      generalize none = cursor at hfollows
      induction hfollows with
      | last hlist hnone =>
        obtain rfl := List.mem_singleton.1 hpage
        exact ⟨_, hlist⟩
      | more hlist hsome hrest ih =>
        obtain rfl | hpage := List.mem_cons.1 hpage
        · exact ⟨_, hlist⟩
        · exact ih hpage
    obtain ⟨cursor, hlist⟩ := hserved
    obtain ⟨last, hlast, -, hdecode⟩ := decode_nextCursor hlist hnext
    exact ⟨last, hlast, hdecode⟩

end Follow

section Sample

open Coppermind.Frontmatter

/-- A parsed note. -/
def sampleRow (id path : PyStr) : Row where
  id := id
  cells
    | .path => path
    | .title => some (PyStr.lit "Meeting")
    | .contentHash => PyStr.lit "0"
    | .sizeBytes => 1
    | .mtime => some 0
    | .frontmatter => []
    | .schemaVersion => 1
    | .type => none
    | .context => none
    | .account => []
    | .date => none
    | .reviewed => false
    | .filed => false
    | .sourceIds => []
    | .artifactIds => []
    | .tags => []
    | .state => .ok
    | .stateReason => none
  firstSeenAt := 0
  updatedAt := 0

def sampleHost : ListHost PyStr where
  decode _ := none
  floatIs _ _ := false
  collate id := id
  collate_injective := Function.injective_id
  digest _ _ := []
  digest_scalars _ _ _ h := nomatch h
  scanBatch := 200

/-- The notes under `Work`, one a page. -/
def sampleQuery : NoteQuery where
  filter := none
  folder := some (PyStr.lit "Work")
  reviewed := none
  type := none
  context := none
  account := none
  fromDate := none
  toDate := none
  tag := none
  state := none
  cursor := none
  limit := 1
  positive := by decide
  atMost := by decide

/-- Three notes at the paths given. -/
def sampleSnapshot (a b c : String) : Snapshot where
  rows := [sampleRow (PyStr.lit "a") (PyStr.lit a), sampleRow (PyStr.lit "b") (PyStr.lit b),
    sampleRow (PyStr.lit "c") (PyStr.lit c)]
  distinct := by
    show [PyStr.lit "a", PyStr.lit "b", PyStr.lit "c"].Nodup
    decide
  scalars := by
    intro row hrow
    simp only [List.mem_cons, List.not_mem_nil, or_false] at hrow
    obtain rfl | rfl | rfl := hrow
    · exact @scalars_lit (PyStr.lit "a") (by decide)
    · exact @scalars_lit (PyStr.lit "b") (by decide)
    · exact @scalars_lit (PyStr.lit "c") (by decide)
  answers := true
  conditions _ := .ok fun _ => true
  revision := 1
  revisionAfter := 1
  rootPresent := true
  indexed := true
  reading _ := .read
  filing _ := ⟨none, 0⟩

def sampleSummary (id path : String) : NoteSummary :=
  { mirroredSummary (sampleRow (PyStr.lit id) (PyStr.lit path)) with
    filingError := none
    filingAttempts := 0 }

/-- Between the pages the first note moves into the folder and the last one out of it. -/
def sampleServed : List (Snapshot × Page) :=
  [(sampleSnapshot "Home/a.md" "Work/b.md" "Work/c.md",
      { items := [sampleSummary "b" "Work/b.md"]
        nextCursor := some (encodeNoteCursor (PyStr.lit "b") none) }),
    (sampleSnapshot "Work/a.md" "Work/b.md" "Home/c.md", { items := [], nextCursor := none })]

theorem follows_sampleServed : Follows sampleHost sampleQuery none sampleServed := by
  refine .more (by decide +kernel) rfl (.last (by decide +kernel) rfl)

theorem pages_complete_sample :
    ((returned sampleServed).map (·.id)).count (PyStr.lit "b") = 1 := by
  refine ((pages_complete sampleHost sampleQuery).2 sampleServed follows_sampleServed).2.2.1 _ ?_
  intro page hpage
  simp only [sampleServed, List.mem_cons, List.not_mem_nil, or_false] at hpage
  obtain rfl | rfl := hpage
  · refine ⟨sampleSummary "b" "Work/b.md", ⟨fun _ => true, rfl, _,
      List.mem_cons_of_mem _ List.mem_cons_self, rfl, by decide, fun _ => rfl, rfl⟩, rfl⟩
  · refine ⟨sampleSummary "b" "Work/b.md", ⟨fun _ => true, rfl, _,
      List.mem_cons_of_mem _ List.mem_cons_self, rfl, by decide, fun _ => rfl, rfl⟩, rfl⟩

/-- Neither the note that matches when the last page is served nor the one that matches when the
first is comes back: each was moved while the listing stood on the other side of it. -/
theorem moved_unlisted :
    Follows sampleHost sampleQuery none sampleServed ∧
    Listed sampleQuery (sampleSnapshot "Work/a.md" "Work/b.md" "Home/c.md")
      (sampleSummary "a" "Work/a.md") ∧
    Listed sampleQuery (sampleSnapshot "Home/a.md" "Work/b.md" "Work/c.md")
      (sampleSummary "c" "Work/c.md") ∧
    PyStr.lit "a" ∉ (returned sampleServed).map (·.id) ∧
    PyStr.lit "c" ∉ (returned sampleServed).map (·.id) := by
  refine ⟨follows_sampleServed, ?_, ?_, by decide, by decide⟩
  · exact ⟨fun _ => true, rfl, _, List.mem_cons_self, rfl, by decide, fun _ => rfl, rfl⟩
  · exact ⟨fun _ => true, rfl, _, List.mem_cons_of_mem _ (List.mem_cons_of_mem _
      List.mem_cons_self), rfl, by decide, fun _ => rfl, rfl⟩

end Sample

end Coppermind.Notes
