import Coppermind.Lib.Merge
import Coppermind.Calendar.Import

/-!
# The calendar does not depend on the order of its exports

An event version is ranked by its revision and stamped by its semantic hash, and its notes are
its witnesses; `mergeEventInto` is then one joining of `Lib.Merge`.  A `Plan` is a way to merge
versions, in any order, grouped in any way and repeated at will.
-/

namespace Coppermind.Calendar

-- Sequence numbers are compared by the computable order, whatever else `Int` is ordered by.
local instance (priority := high) sequencePartialOrder : PartialOrder Int := Int.instLinearOrder.toPartialOrder

local instance (priority := high) sequencePreorder : Preorder Int := Int.instLinearOrder.toPreorder

open Coppermind.Lib

variable {env : Env}

section Order

theorem stamp_lt_iff {a b : WithBot UtcTime} : stamp a < stamp b ↔ a < b := by
  cases a with
  | bot =>
    cases b with
    | bot => exact iff_of_false (lt_irrefl _) (lt_irrefl _)
    | coe t =>
      apply iff_of_true
      · show ([] : Text) < t.isoformat
        have hne : t.isoformat ≠ [] := by simp [UtcTime.isoformat]
        obtain ⟨c, rest, hcons⟩ := List.exists_cons_of_ne_nil hne
        rw [hcons]
        exact List.Lex.nil
      · exact WithBot.bot_lt_coe t
  | coe s =>
    cases b with
    | bot => exact iff_of_false (List.not_lt_nil _) not_lt_bot
    | coe t => exact (s.isoformat_lt_iff t).trans WithBot.coe_lt_coe.symm

/-- **Revisions order by sequence and time**: the text of the time plays no part. -/
theorem revision_le_iff {s s' : Int} {a b : WithBot UtcTime} :
    (toLex (s, stamp a) : Int ×ₗ Text) ≤ toLex (s', stamp b) ↔
      (toLex (s, a) : Int ×ₗ WithBot UtcTime) ≤ toLex (s', b) := by
  have hle : stamp a ≤ stamp b ↔ a ≤ b := by
    rw [← not_lt, ← not_lt, stamp_lt_iff]
  rw [Prod.Lex.toLex_le_toLex, Prod.Lex.toLex_le_toLex, hle]

end Order

section Witnesses

theorem mem_addWitnesses {witnesses more : List EventProvenance} {w : EventProvenance} :
    w ∈ addWitnesses witnesses more ↔ w ∈ witnesses ∨ w ∈ more := by
  induction more generalizing witnesses with
  | nil => simp [addWitnesses]
  | cons witness more ih =>
    rw [addWitnesses, ih]
    by_cases h : witness ∈ witnesses
    · rw [if_pos h, List.mem_cons]
      constructor
      · intro hw
        obtain hw | hw := hw
        · exact Or.inl hw
        · exact Or.inr (Or.inr hw)
      · intro hw
        obtain hw | rfl | hw := hw
        · exact Or.inl hw
        · exact Or.inl h
        · exact Or.inr hw
    · rw [if_neg h, List.mem_append, List.mem_singleton, List.mem_cons, or_assoc]

theorem addWitnesses_of_subset {witnesses more : List EventProvenance}
    (h : ∀ w ∈ more, w ∈ witnesses) : addWitnesses witnesses more = witnesses := by
  induction more with
  | nil => rfl
  | cons witness more ih =>
    rw [addWitnesses, if_pos (h witness List.mem_cons_self)]
    exact ih fun w hw => h w (List.mem_cons_of_mem _ hw)

/-- The witnesses of an event stand in their order. -/
def InOrder (event : CalendarEvent) : Prop := event.provenance.Pairwise WitnessLe

theorem mem_sortWitnesses {witnesses : List EventProvenance} {w : EventProvenance} :
    w ∈ sortWitnesses witnesses ↔ w ∈ witnesses :=
  List.mem_insertionSort _

instance : IsTrans EventProvenance WitnessLe := ⟨fun _ _ _ h h' => le_trans h h'⟩

instance : Std.Total WitnessLe := ⟨fun p q => le_total (witnessKey p) (witnessKey q)⟩

theorem sorted_sortWitnesses (witnesses : List EventProvenance) :
    (sortWitnesses witnesses).Pairwise WitnessLe :=
  List.pairwise_insertionSort _ _

theorem sortWitnesses_of_sorted {witnesses : List EventProvenance}
    (h : witnesses.Pairwise WitnessLe) : sortWitnesses witnesses = witnesses :=
  h.insertionSort_eq

end Witnesses

section Steps

/-- How a merge looks at an event version. -/
def ranking (env : Env) :
    Ranking CalendarEvent (WithBot (Int ×ₗ Text)) (Option Text) EventProvenance where
  rank event := (event.revision env).toOption
  stamp event := (event.semanticHash env).toOption
  notes event := { w | w ∈ event.provenance }

def keyOf (env : Env) (event : CalendarEvent) : Option Text := (event.identity env).toOption

/-- An event version whose dates and component can be read. -/
structure Readable (env : Env) (event : CalendarEvent) : Prop where
  identity : ∃ k, event.identity env = .ok k
  revision : ∃ r, event.revision env = .ok r
  semanticHash : ∃ h, event.semanticHash env = .ok h

/-- No two versions of one identity with equal revision differ in semantic hash. -/
def ConflictFree (env : Env) (S : Set CalendarEvent) : Prop :=
  ∀ a ∈ S, ∀ b ∈ S, a.identity env = b.identity env → a.revision env = b.revision env →
    a.semanticHash env = b.semanticHash env

variable {S T : Set CalendarEvent} {d : Events} {u v : CalendarEvent} {k : Text}

theorem toOption_eq_some {α : Type} {x : Except Raised α} {a : α} :
    x.toOption = some a ↔ x = .ok a := by
  cases x <;> simp [Except.toOption]

theorem keyOf_eq_some : keyOf env u = some k ↔ u.identity env = .ok k := toOption_eq_some

theorem ConflictFree.mono (h : ConflictFree env T) (hsub : S ⊆ T) : ConflictFree env S :=
  fun a ha b hb => h a (hsub ha) b (hsub hb)

/-- Versions under one key agree. -/
theorem ConflictFree.agree (h : ConflictFree env S) (hread : ∀ e ∈ S, Readable env e)
    (hkey : ∀ e ∈ S, keyOf env e = some k) : (ranking env).Agree S := by
  intro a ha b hb hrank
  have hid : a.identity env = b.identity env :=
    (keyOf_eq_some.1 (hkey a ha)).trans (keyOf_eq_some.1 (hkey b hb)).symm
  obtain ⟨r, hr⟩ := (hread a ha).revision
  have hrev : a.revision env = b.revision env := by
    have hb' : (b.revision env).toOption = some r :=
      hrank.symm.trans (toOption_eq_some.2 hr)
    rw [hr, toOption_eq_some.1 hb']
  exact congrArg Except.toOption (h a ha b hb hid hrev)

/-- What a merge keeps of readable versions has a revision and a hash. -/
theorem revision_of_sums (hread : ∀ e ∈ S, Readable env e) (h : (ranking env).Sums S v) :
    (∃ r, v.revision env = .ok r) ∧ ∃ h, v.semanticHash env = .ok h := by
  obtain ⟨a, ha, hrank, hstamp⟩ := h.top
  obtain ⟨r, hr⟩ := (hread a ha).revision
  obtain ⟨x, hx⟩ := (hread a ha).semanticHash
  constructor
  · exact ⟨r, toOption_eq_some.1 (hrank.symm.trans (toOption_eq_some.2 hr))⟩
  · exact ⟨x, toOption_eq_some.1 (hstamp.symm.trans (toOption_eq_some.2 hx))⟩

section Merged

variable {event previous : CalendarEvent} {newer : Bool}

/-- Witnesses are no part of an identity, a revision or a semantic hash. -/
theorem mergedEvent_reads :
    (mergedEvent event previous newer).identity env =
        (if newer then event else previous).identity env ∧
      (mergedEvent event previous newer).revision env =
        (if newer then event else previous).revision env ∧
      (mergedEvent event previous newer).semanticHash env =
        (if newer then event else previous).semanticHash env :=
  ⟨rfl, rfl, rfl⟩

theorem mem_mergedEvent {w : EventProvenance} :
    w ∈ (mergedEvent event previous newer).provenance ↔
      w ∈ previous.provenance ∨ w ∈ event.provenance :=
  mem_sortWitnesses.trans mem_addWitnesses

theorem mergedEvent_inOrder : InOrder (mergedEvent event previous newer) :=
  sorted_sortWitnesses _

end Merged

/-- The event brings the versions of a set, all of one key, into a merge. -/
structure Brings (env : Env) (T : Set CalendarEvent) (u : CalendarEvent) (k : Text) : Prop where
  key : keyOf env u = some k
  keys : ∀ a ∈ T, keyOf env a = some k
  sums : (ranking env).Sums T u

theorem brings_self (h : keyOf env u = some k) : Brings env {u} u k where
  key := h
  keys a ha := by rwa [Set.mem_singleton_iff.1 ha]
  sums := Ranking.Sums.single u

/-- What `mergeEventInto` puts under the identity. -/
def placed (env : Env) (d : Events) (k : Text) (u : CalendarEvent) : CalendarEvent :=
  match d.lookup k with
  | none => u
  | some previous =>
    mergedEvent u previous (decide ((ranking env).rank previous < (ranking env).rank u))

/-- **One event**: a merge of versions that agree takes the versions that the event brings. -/
theorem mergeEventInto_spec (hcov : (ranking env).Covers (keyOf env) S (view d))
    (hu : Brings env T u k) (hread : ∀ e ∈ S ∪ T, Readable env e)
    (hfree : ConflictFree env (S ∪ T)) :
    mergeEventInto env d u = .ok (assign d k (placed env d k u)) ∧
      (ranking env).Covers (keyOf env) (S ∪ T) (view (assign d k (placed env d k u))) := by
  have hreadS : ∀ e ∈ S, Readable env e := fun e he => hread e (Or.inl he)
  have hreadT : ∀ e ∈ T, Readable env e := fun e he => hread e (Or.inr he)
  have hid := keyOf_eq_some.1 hu.key
  rw [view_assign]
  cases hd : d.lookup k with
  | none =>
    have hplaced : placed env d k u = u := by rw [placed, hd]
    rw [hplaced]
    constructor
    · simp only [mergeEventInto, hid, bind, Except.bind, hd, pure, Except.pure]
    · apply hcov.put hu.keys hu.key
      rw [hcov.absent k hd, Set.empty_union]
      exact hu.sums
  | some previous =>
    obtain ⟨hkey, hsums⟩ := hcov.held k previous hd
    have hunder : ∀ e ∈ underKey (keyOf env) S k ∪ T, Readable env e := by
      intro e he
      obtain he | he := he
      · exact hreadS e he.1
      · exact hreadT e he
    have hagree : (ranking env).Agree (underKey (keyOf env) S k ∪ T) := by
      apply ConflictFree.agree (k := k)
      · exact hfree.mono (Set.union_subset_union_left T underKey_subset)
      · exact hunder
      · intro e he
        obtain he | he := he
        · exact he.2
        · exact hu.keys e he
    obtain ⟨⟨r, hr⟩, x, hx⟩ := revision_of_sums (fun e he => hreadS e he.1) hsums
    obtain ⟨⟨r', hr'⟩, x', hx'⟩ := revision_of_sums hreadT hu.sums
    have hrank : (ranking env).rank previous = (r : WithBot (Int ×ₗ Text)) :=
      toOption_eq_some.2 hr
    have hrank' : (ranking env).rank u = (r' : WithBot (Int ×ₗ Text)) := toOption_eq_some.2 hr'
    have hnone : conflicts env u previous = .ok false := by
      simp only [conflicts, hr, hr', bind, Except.bind, pure, Except.pure]
      split
      · next heq =>
        have hstamp := hsums.stamp_eq hu.sums hagree (by rw [hrank, hrank', heq])
        have hxx : some x = some x' :=
          (toOption_eq_some.2 hx).symm.trans (hstamp.trans (toOption_eq_some.2 hx'))
        simp [hx, hx', Option.some.inj hxx]
      · rfl
    have hnewer : (ranking env).rank previous < (ranking env).rank u ↔ r < r' := by
      rw [hrank, hrank', WithBot.coe_lt_coe]
    have hplaced : placed env d k u = mergedEvent u previous (decide (r < r')) := by
      rw [placed, hd]
      simp only [hnewer]
    rw [hplaced]
    constructor
    · simp only [mergeEventInto, hid, bind, Except.bind, hd, hnone, Bool.false_eq_true, if_false,
        hr, hr', pure, Except.pure]
    · have hwkey : keyOf env (mergedEvent u previous (decide (r < r'))) = some k := by
        rw [keyOf, mergedEvent_reads.1]
        split
        · exact hu.key
        · exact hkey
      apply hcov.put hu.keys hwkey
      apply hsums.join hu.sums
      · intro hlt
        have hdec : decide (r < r') = true := decide_eq_true (hnewer.1 hlt)
        rw [hdec]
        exact ⟨rfl, rfl⟩
      · intro hlt
        have hdec : decide (r < r') = false := decide_eq_false fun h => hlt (hnewer.2 h)
        rw [hdec]
        exact ⟨rfl, rfl⟩
      · exact fun _ => mem_mergedEvent

end Steps

section Runs

variable {S : Set CalendarEvent} {d d' : Events} {u : CalendarEvent} {k : Text}
  {incoming : List CalendarEvent} {part : CalendarEvent → Set CalendarEvent}

/-- What the events of a list bring. -/
def partsOf (part : CalendarEvent → Set CalendarEvent) (incoming : List CalendarEvent) :
    Set CalendarEvent :=
  { a | ∃ u ∈ incoming, a ∈ part u }

theorem partsOf_cons : partsOf part (u :: incoming) = part u ∪ partsOf part incoming := by
  ext a
  simp [partsOf]

theorem partsOf_subset_cons : partsOf part incoming ⊆ partsOf part (u :: incoming) :=
  fun _ h => h.imp fun _ hv => ⟨List.mem_cons_of_mem _ hv.1, hv.2⟩

/-- **A run of merges**: versions that agree are merged without a conflict. -/
theorem mergeEvents_spec (hcov : (ranking env).Covers (keyOf env) S (view d))
    (hpart : ∀ u ∈ incoming, ∃ k, Brings env (part u) u k)
    (hread : ∀ e ∈ S ∪ partsOf part incoming, Readable env e)
    (hfree : ConflictFree env (S ∪ partsOf part incoming)) :
    ∃ d', mergeEvents env d incoming = .ok d' ∧
      (ranking env).Covers (keyOf env) (S ∪ partsOf part incoming) (view d') := by
  induction incoming generalizing S d with
  | nil =>
    have hnone : S ∪ partsOf part [] = S := by simp [partsOf]
    rw [hnone]
    exact ⟨d, rfl, hcov⟩
  | cons u incoming ih =>
    rw [partsOf_cons, ← Set.union_assoc] at hread hfree ⊢
    obtain ⟨k, hu⟩ := hpart u List.mem_cons_self
    obtain ⟨hrun, hcov'⟩ := mergeEventInto_spec hcov hu (fun e he => hread e (Or.inl he))
      (hfree.mono Set.subset_union_left)
    obtain ⟨d', hrest, hcov''⟩ :=
      ih hcov' (fun v hv => hpart v (List.mem_cons_of_mem _ hv)) hread hfree
    refine ⟨d', ?_, hcov''⟩
    rw [mergeEvents, List.foldlM_cons, hrun]
    exact hrest

/-- The witnesses of every event of the dictionary stand in their order. -/
def AllInOrder (d : Events) : Prop := ∀ k v, d.lookup k = some v → InOrder v

theorem mergeEventInto_ok (h : mergeEventInto env d u = .ok d') :
    ∃ k v, d' = assign d k v ∧ (v = u ∨ ∃ previous newer, v = mergedEvent u previous newer) := by
  unfold mergeEventInto at h
  cases hid : u.identity env with
  | error e =>
    rw [hid] at h
    cases h
  | ok k =>
    simp only [hid, bind, Except.bind] at h
    split at h
    · exact ⟨k, u, (Except.ok.inj h).symm, Or.inl rfl⟩
    · next previous _ =>
      cases hconflict : conflicts env u previous with
      | error e =>
        rw [hconflict] at h
        cases h
      | ok conflict =>
        rw [hconflict] at h
        cases conflict with
        | true => cases h
        | false =>
          cases hr : previous.revision env with
          | error e =>
            rw [hr] at h
            cases h
          | ok r =>
            cases hr' : u.revision env with
            | error e =>
              rw [hr, hr'] at h
              cases h
            | ok r' =>
              rw [hr, hr'] at h
              exact ⟨k, _, (Except.ok.inj h).symm, Or.inr ⟨previous, _, rfl⟩⟩

theorem mergeEventInto_inOrder (h : mergeEventInto env d u = .ok d') (hd : AllInOrder d)
    (hu : InOrder u) : AllInOrder d' := by
  obtain ⟨k, v, rfl, hv⟩ := mergeEventInto_ok h
  intro k' v' hlookup
  have hview : Function.update (view d) k (some v) k' = some v' := by
    rw [← view_assign]
    exact hlookup
  by_cases hk : k' = k
  · subst hk
    rw [Function.update_self] at hview
    obtain rfl := Option.some.inj hview
    obtain rfl | ⟨previous, newer, rfl⟩ := hv
    · exact hu
    · exact mergedEvent_inOrder
  · rw [Function.update_of_ne hk] at hview
    exact hd k' v' hview

theorem mergeEvents_inOrder (h : mergeEvents env d incoming = .ok d') (hd : AllInOrder d)
    (hu : ∀ u ∈ incoming, InOrder u) : AllInOrder d' := by
  induction incoming generalizing d with
  | nil =>
    obtain rfl := Except.ok.inj h
    exact hd
  | cons u incoming ih =>
    rw [mergeEvents, List.foldlM_cons] at h
    cases hrun : mergeEventInto env d u with
    | error e =>
      rw [hrun] at h
      cases h
    | ok next =>
      rw [hrun] at h
      have hnext := mergeEventInto_inOrder hrun hd (hu u List.mem_cons_self)
      exact ih h hnext fun v hv => hu v (List.mem_cons_of_mem _ hv)

/-- `d'` is `d`, except for the order in which an event lists its witnesses. -/
structure SameButOrder (d d' : Events) : Prop where
  keys : d'.keys = d.keys
  held : ∀ k v, d.lookup k = some v → ∃ witnesses, witnesses.Perm v.provenance ∧
    d'.lookup k = some { v with provenance := witnesses }

theorem SameButOrder.refl (d : Events) : SameButOrder d d :=
  ⟨rfl, fun _ v hv => ⟨v.provenance, List.Perm.refl _, hv⟩⟩

theorem SameButOrder.trans {d'' : Events} (h : SameButOrder d d') (h' : SameButOrder d' d'') :
    SameButOrder d d'' where
  keys := h'.keys.trans h.keys
  held k v hv := by
    obtain ⟨ws, hperm, hlookup⟩ := h.held k v hv
    obtain ⟨ws', hperm', hlookup'⟩ := h'.held k _ hlookup
    exact ⟨ws', hperm'.trans hperm, hlookup'⟩

/-- **An event that was merged before**: it has its witnesses sorted, and nothing else. -/
theorem mergeEventInto_again {T : Set CalendarEvent}
    (hcov : (ranking env).Covers (keyOf env) S (view d)) (hu : Brings env T u k) (hT : T ⊆ S)
    (hread : ∀ e ∈ S, Readable env e) (hfree : ConflictFree env S) :
    ∃ previous, d.lookup k = some previous ∧ mergeEventInto env d u =
      .ok (assign d k { previous with provenance := sortWitnesses previous.provenance }) := by
  have hunion : S ∪ T = S := Set.union_eq_self_of_subset_right hT
  obtain ⟨a, ha, hrank, -⟩ := hu.sums.top
  obtain ⟨previous, hprevious⟩ : ∃ previous, view d k = some previous := by
    apply Option.isSome_iff_exists.1
    exact (hcov.isSome_iff k).2 ⟨a, hT ha, hu.keys a ha⟩
  obtain ⟨-, hsums⟩ := hcov.held k previous hprevious
  have hrun := (mergeEventInto_spec hcov hu (by rwa [hunion]) (by rwa [hunion])).1
  refine ⟨previous, hprevious, ?_⟩
  rw [hrun, placed, ← view_apply, hprevious]
  have hnot : ¬(ranking env).rank previous < (ranking env).rank u := by
    rw [← hrank]
    exact not_lt.2 (hsums.bound a ⟨hT ha, hu.keys a ha⟩)
  have hsub : ∀ w ∈ u.provenance, w ∈ previous.provenance := by
    intro w hw
    obtain ⟨b, hb, hwb⟩ := (hu.sums.notes w).1 hw
    exact (hsums.notes w).2 ⟨b, ⟨hT hb, hu.keys b hb⟩, hwb⟩
  simp only [mergedEvent, addWitnesses_of_subset hsub, decide_eq_false hnot, Bool.false_eq_true,
    if_false]

theorem sameButOrder_assign {previous : CalendarEvent} (h : d.lookup k = some previous) :
    SameButOrder d
      (assign d k { previous with provenance := sortWitnesses previous.provenance }) where
  keys := by
    have hmem : k ∈ d := by
      apply AList.lookup_isSome.1
      rw [h]
      rfl
    rw [assign, dif_pos hmem, AList.keys_replace]
  held k' v hv := by
    have hview := congrFun (view_assign d k
      { previous with provenance := sortWitnesses previous.provenance }) k'
    rw [view_apply] at hview
    by_cases hk : k' = k
    · subst hk
      rw [Function.update_self] at hview
      obtain rfl : previous = v := Option.some.inj (h.symm.trans hv)
      exact ⟨_, List.perm_insertionSort _ _, hview⟩
    · rw [Function.update_of_ne hk] at hview
      exact ⟨v.provenance, List.Perm.refl _, hview.trans hv⟩

/-- **Merging again**: what was merged before changes nothing but the order of witnesses, and
nothing at all where they stand in their order. -/
theorem mergeEvents_again (hcov : (ranking env).Covers (keyOf env) S (view d))
    (hpart : ∀ u ∈ incoming, ∃ k, Brings env (part u) u k) (hsub : partsOf part incoming ⊆ S)
    (hread : ∀ e ∈ S, Readable env e) (hfree : ConflictFree env S) :
    ∃ d', mergeEvents env d incoming = .ok d' ∧ SameButOrder d d' ∧
      (AllInOrder d → d' = d) := by
  induction incoming generalizing d with
  | nil => exact ⟨d, rfl, SameButOrder.refl d, fun _ => rfl⟩
  | cons u incoming ih =>
    obtain ⟨k, hu⟩ := hpart u List.mem_cons_self
    have hT : part u ⊆ S := by
      rw [partsOf_cons] at hsub
      exact Set.subset_union_left.trans hsub
    obtain ⟨previous, hprevious, hrun⟩ := mergeEventInto_again hcov hu hT hread hfree
    have hunion : S ∪ part u = S := Set.union_eq_self_of_subset_right hT
    obtain ⟨hrun', hcov'⟩ := mergeEventInto_spec hcov hu (by rwa [hunion]) (by rwa [hunion])
    have hnext := Except.ok.inj (hrun'.symm.trans hrun)
    rw [hnext, hunion] at hcov'
    obtain ⟨d', hrest, hsame, heq⟩ := ih hcov' (fun v hv => hpart v (List.mem_cons_of_mem _ hv))
      (partsOf_subset_cons.trans hsub)
    refine ⟨d', ?_, (sameButOrder_assign hprevious).trans hsame, ?_⟩
    · rw [mergeEvents, List.foldlM_cons, hrun]
      exact hrest
    · intro horder
      have hsorted := sortWitnesses_of_sorted (horder k previous hprevious)
      have hself : assign d k
          { previous with provenance := sortWitnesses previous.provenance } = d := by
        rw [hsorted]
        have hmem : k ∈ d := by
          apply AList.lookup_isSome.1
          rw [hprevious]
          rfl
        rw [assign, dif_pos hmem]
        exact replace_of_lookup hprevious
      rw [heq (hself.symm ▸ horder), hself]

end Runs

section Plans

/-- `events.values()`. -/
def values (d : Events) : List CalendarEvent := d.entries.map (·.2)

/-- A way to merge event versions: an export is a list of versions, or what another plan made of
them. -/
inductive Plan where
  | empty
  | merge (current : Plan) (exported : List CalendarEvent)
  | mergeAll (current exported : Plan)

namespace Plan

def run (env : Env) : Plan → Except Raised Events
  | empty => pure ∅
  | merge current exported => do mergeEvents env (← current.run env) exported
  | mergeAll current exported => do
    let merged ← current.run env
    mergeEvents env merged (values (← exported.run env))

/-- The versions a plan merges. -/
def offered : Plan → List CalendarEvent
  | empty => []
  | merge current exported => current.offered ++ exported
  | mergeAll current exported => current.offered ++ exported.offered

end Plan

/-- The versions of a list, as a set. -/
def asSet (versions : List CalendarEvent) : Set CalendarEvent := { e | e ∈ versions }

variable {S : Set CalendarEvent} {d : Events} {p : Plan}

theorem asSet_append (a b : List CalendarEvent) : asSet (a ++ b) = asSet a ∪ asSet b := by
  ext e
  simp [asSet]

theorem mem_values {v : CalendarEvent} : v ∈ values d ↔ ∃ k, d.lookup k = some v := by
  rw [values, List.mem_map]
  constructor
  · intro h
    obtain ⟨⟨k, v'⟩, hmem, rfl⟩ := h
    exact ⟨k, mem_entries_iff_view.1 hmem⟩
  · intro h
    obtain ⟨k, hk⟩ := h
    exact ⟨⟨k, v⟩, mem_entries_iff_view.2 hk, rfl⟩

/-- What a list of versions brings into a merge: each version itself. -/
theorem brings_versions {versions : List CalendarEvent} (hread : ∀ e ∈ versions, Readable env e) :
    (∀ u ∈ versions, ∃ k, Brings env {u} u k) ∧
      partsOf (fun u => {u}) versions = asSet versions := by
  constructor
  · intro u hu
    obtain ⟨k, hk⟩ := (hread u hu).identity
    exact ⟨k, brings_self (keyOf_eq_some.2 hk)⟩
  · ext e
    simp [partsOf, asSet]

/-- What a merged dictionary brings into a merge: under each key, the versions of that key. -/
theorem brings_values (hcov : (ranking env).Covers (keyOf env) S (view d))
    (hread : ∀ e ∈ S, Readable env e) :
    (∀ u ∈ values d, ∃ k, Brings env { a ∈ S | keyOf env a = keyOf env u } u k) ∧
      partsOf (fun u => { a ∈ S | keyOf env a = keyOf env u }) (values d) = S := by
  constructor
  · intro u hu
    obtain ⟨k, hk⟩ := mem_values.1 hu
    obtain ⟨hkey, hsums⟩ := hcov.held k u hk
    refine ⟨k, hkey, ?_, ?_⟩
    · intro a ha
      exact ha.2.trans hkey
    · rw [hkey]
      exact hsums
  · ext a
    constructor
    · intro ha
      obtain ⟨u, -, ha, -⟩ := ha
      exact ha
    · intro ha
      obtain ⟨k, hk⟩ := (hread a ha).identity
      have hkey := keyOf_eq_some.2 hk
      have hsome := (hcov.isSome_iff k).2 ⟨a, ha, hkey⟩
      obtain ⟨u, hu⟩ := Option.isSome_iff_exists.1 hsome
      exact ⟨u, mem_values.2 ⟨k, hu⟩, ha, hkey.trans (hcov.held k u hu).1.symm⟩

/-- **A plan** merges what it offers, where the versions agree. -/
theorem plan_covers (hread : ∀ e ∈ p.offered, Readable env e)
    (hfree : ConflictFree env (asSet p.offered)) :
    ∃ d, p.run env = .ok d ∧ (ranking env).Covers (keyOf env) (asSet p.offered) (view d) := by
  induction p with
  | empty =>
    refine ⟨∅, rfl, ?_⟩
    have hview : view (∅ : Events) = fun _ => none := funext view_empty
    have hset : asSet Plan.empty.offered = ∅ := by simp [asSet, Plan.offered]
    rw [hview, hset]
    exact Ranking.Covers.empty
  | merge current exported ih =>
    rw [Plan.offered, asSet_append] at hfree ⊢
    have hcurrent : ∀ e ∈ current.offered, Readable env e :=
      fun e he => hread e (List.mem_append_left _ he)
    have hexported : ∀ e ∈ exported, Readable env e :=
      fun e he => hread e (List.mem_append_right _ he)
    obtain ⟨d, hrun, hcov⟩ := ih hcurrent (hfree.mono Set.subset_union_left)
    obtain ⟨hpart, hparts⟩ := brings_versions hexported
    have hspec := @mergeEvents_spec _ _ _ _ (fun u => {u}) hcov hpart
    rw [hparts] at hspec
    obtain ⟨d', hmerge, hcov'⟩ :=
      hspec (fun e he => hread e (List.mem_append.2 he)) hfree
    refine ⟨d', ?_, hcov'⟩
    rw [Plan.run, hrun]
    exact hmerge
  | mergeAll current exported ihCurrent ihExported =>
    rw [Plan.offered, asSet_append] at hfree ⊢
    have hcurrent : ∀ e ∈ current.offered, Readable env e :=
      fun e he => hread e (List.mem_append_left _ he)
    have hexported : ∀ e ∈ exported.offered, Readable env e :=
      fun e he => hread e (List.mem_append_right _ he)
    obtain ⟨d, hrun, hcov⟩ := ihCurrent hcurrent (hfree.mono Set.subset_union_left)
    obtain ⟨dq, hrunq, hcovq⟩ := ihExported hexported (hfree.mono Set.subset_union_right)
    obtain ⟨hpart, hparts⟩ := brings_values hcovq hexported
    have hspec := mergeEvents_spec hcov hpart
    rw [hparts] at hspec
    obtain ⟨d', hmerge, hcov'⟩ :=
      hspec (fun e he => hread e (List.mem_append.2 he)) hfree
    refine ⟨d', ?_, hcov'⟩
    rw [Plan.run, hrun, hrunq]
    exact hmerge

/-- A plan keeps the witnesses of every event in order. -/
theorem plan_inOrder (hrun : p.run env = .ok d) (horder : ∀ e ∈ p.offered, InOrder e) :
    AllInOrder d := by
  induction p generalizing d with
  | empty =>
    obtain rfl := Except.ok.inj hrun
    intro k v hv
    rw [AList.lookup_empty] at hv
    cases hv
  | merge current exported ih =>
    rw [Plan.run] at hrun
    cases hcurrent : current.run env with
    | error e =>
      rw [hcurrent] at hrun
      cases hrun
    | ok merged =>
      rw [hcurrent] at hrun
      have hmerged := ih hcurrent fun e he => horder e (List.mem_append_left _ he)
      exact mergeEvents_inOrder hrun hmerged fun e he => horder e (List.mem_append_right _ he)
  | mergeAll current exported ihCurrent ihExported =>
    rw [Plan.run] at hrun
    cases hcurrent : current.run env with
    | error e =>
      rw [hcurrent] at hrun
      cases hrun
    | ok merged =>
      cases hexported : exported.run env with
      | error e =>
        rw [hcurrent, hexported] at hrun
        cases hrun
      | ok dq =>
        rw [hcurrent, hexported] at hrun
        have hmerged := ihCurrent hcurrent fun e he => horder e (List.mem_append_left _ he)
        have hdq := ihExported hexported fun e he => horder e (List.mem_append_right _ he)
        apply mergeEvents_inOrder hrun hmerged
        intro u hu
        obtain ⟨k, hk⟩ := mem_values.1 hu
        exact hdq k u hk

end Plans

section Calendar

/-- The calendar of a collection of versions: their identities, for each the version of greatest
`(sequence, last modified)`, and every witness offered. -/
structure CalendarOf (env : Env) (versions : List CalendarEvent) (d : Events) : Prop where
  identities : ∀ k, k ∈ d ↔ ∃ e ∈ versions, e.identity env = .ok k
  winner : ∀ k v, d.lookup k = some v → ∃ top ∈ versions, top.identity env = .ok k ∧
    v.revision env = top.revision env ∧ v.semanticHash env = top.semanticHash env ∧
    ∃ modified, top.lastModified env = .ok modified ∧
      ∀ e ∈ versions, e.identity env = .ok k → ∀ modified', e.lastModified env = .ok modified' →
        (toLex (e.sequence, modified') : Int ×ₗ WithBot UtcTime) ≤ toLex (top.sequence, modified)
  witnesses : ∀ k v, d.lookup k = some v → ∀ w, w ∈ v.provenance ↔
    ∃ e ∈ versions, e.identity env = .ok k ∧ w ∈ e.provenance

/-- What a calendar says of an identity: the winning revision and semantic hash, and the set of
witnesses. -/
def outcome (env : Env) (d : Events) (k : Text) :
    Option (Except Raised (Int ×ₗ Text) × Except Raised Text × Set EventProvenance) :=
  (d.lookup k).map fun v => (v.revision env, v.semanticHash env, { w | w ∈ v.provenance })

variable {versions : List CalendarEvent} {d d' : Events}

theorem revision_ok {e : CalendarEvent} {r : Int ×ₗ Text} (h : e.revision env = .ok r) :
    ∃ modified, e.lastModified env = .ok modified ∧ r = toLex (e.sequence, stamp modified) := by
  unfold CalendarEvent.revision at h
  cases hmodified : e.lastModified env with
  | error x =>
    rw [hmodified] at h
    cases h
  | ok modified =>
    rw [hmodified] at h
    exact ⟨modified, rfl, (Except.ok.inj h).symm⟩

theorem revision_of_lastModified {e : CalendarEvent} {modified : WithBot UtcTime}
    (h : e.lastModified env = .ok modified) :
    e.revision env = .ok (toLex (e.sequence, stamp modified)) := by
  rw [CalendarEvent.revision, h]
  rfl

/-- A dictionary that holds the merge of the versions is their calendar. -/
theorem calendarOf_of_covers (hread : ∀ e ∈ versions, Readable env e)
    (hcov : (ranking env).Covers (keyOf env) (asSet versions) (view d)) :
    CalendarOf env versions d where
  identities k := by
    rw [← AList.lookup_isSome]
    refine (hcov.isSome_iff k).trans ?_
    constructor
    · intro h
      obtain ⟨e, he, hk⟩ := h
      exact ⟨e, he, keyOf_eq_some.1 hk⟩
    · intro h
      obtain ⟨e, he, hk⟩ := h
      exact ⟨e, he, keyOf_eq_some.2 hk⟩
  winner k v hv := by
    obtain ⟨-, hsums⟩ := hcov.held k v hv
    obtain ⟨top, ⟨htop, hkey⟩, hrank, hstamp⟩ := hsums.top
    obtain ⟨r, hr⟩ := (hread top htop).revision
    obtain ⟨x, hx⟩ := (hread top htop).semanticHash
    have hvr : v.revision env = .ok r :=
      toOption_eq_some.1 (hrank.symm.trans (toOption_eq_some.2 hr))
    have hvx : v.semanticHash env = .ok x :=
      toOption_eq_some.1 (hstamp.symm.trans (toOption_eq_some.2 hx))
    obtain ⟨modified, hmodified, rfl⟩ := revision_ok hr
    refine ⟨top, htop, keyOf_eq_some.1 hkey, hvr.trans hr.symm, hvx.trans hx.symm, modified,
      hmodified, ?_⟩
    intro e he hid modified' hmodified'
    have hle := hsums.bound e ⟨he, keyOf_eq_some.2 hid⟩
    have hrank' : (ranking env).rank e =
        ((toLex (e.sequence, stamp modified') : Int ×ₗ Text) : WithBot (Int ×ₗ Text)) :=
      toOption_eq_some.2 (revision_of_lastModified hmodified')
    have hrankv : (ranking env).rank v =
        ((toLex (top.sequence, stamp modified) : Int ×ₗ Text) : WithBot (Int ×ₗ Text)) :=
      toOption_eq_some.2 hvr
    rw [hrank', hrankv, WithBot.coe_le_coe] at hle
    exact revision_le_iff.1 hle
  witnesses k v hv w := by
    obtain ⟨-, hsums⟩ := hcov.held k v hv
    refine (hsums.notes w).trans ?_
    constructor
    · intro h
      obtain ⟨e, ⟨he, hk⟩, hw⟩ := h
      exact ⟨e, he, keyOf_eq_some.1 hk, hw⟩
    · intro h
      obtain ⟨e, he, hk, hw⟩ := h
      exact ⟨e, ⟨he, keyOf_eq_some.2 hk⟩, hw⟩

/-- Dictionaries that hold the merge of one set of versions say the same. -/
theorem outcome_eq (hread : ∀ e ∈ versions, Readable env e)
    (hfree : ConflictFree env (asSet versions))
    (hcov : (ranking env).Covers (keyOf env) (asSet versions) (view d))
    (hcov' : (ranking env).Covers (keyOf env) (asSet versions) (view d')) (k : Text) :
    outcome env d k = outcome env d' k := by
  have hsome : (view d k).isSome = (view d' k).isSome := by
    rw [Bool.eq_iff_iff, hcov.isSome_iff k, hcov'.isSome_iff k]
  rw [outcome, outcome]
  rw [view_apply, view_apply] at hsome
  cases hd : d.lookup k with
  | none =>
    rw [hd] at hsome
    have hd' : d'.lookup k = none :=
      Option.isNone_iff_eq_none.1 (Option.isSome_eq_false_iff.1 hsome.symm)
    rw [hd']
  | some v =>
    rw [hd] at hsome
    obtain ⟨v', hd'⟩ := Option.isSome_iff_exists.1 hsome.symm
    rw [hd']
    have hsums := (hcov.held k v hd).2
    have hsums' := (hcov'.held k v' hd').2
    have hreadk : ∀ e ∈ underKey (keyOf env) (asSet versions) k, Readable env e :=
      fun e he => hread e he.1
    have hagree := (hfree.mono underKey_subset).agree hreadk fun e he => he.2
    obtain ⟨hrank, hstamp, hnotes⟩ := hsums.unique hsums' hagree
    obtain ⟨⟨r, hr⟩, x, hx⟩ := revision_of_sums hreadk hsums
    have hr' : v'.revision env = .ok r :=
      toOption_eq_some.1 (hrank.symm.trans (toOption_eq_some.2 hr))
    have hx' : v'.semanticHash env = .ok x :=
      toOption_eq_some.1 (hstamp.symm.trans (toOption_eq_some.2 hx))
    have hnotes' : { w | w ∈ v.provenance } = { w | w ∈ v'.provenance } := hnotes
    rw [Option.map_some, Option.map_some, hr, hr', hx, hx', hnotes']

/-- The plan merges the versions, each at least once. -/
def Plan.Offers (p : Plan) (versions : List CalendarEvent) : Prop :=
  ∀ e, e ∈ p.offered ↔ e ∈ versions

/-- **The calendar does not depend on the order exports arrive**: versions of which no two of one
identity and equal revision differ in semantic hash are merged, in any order, any grouping and
with any repetitions, into their calendar; all such merges say the same of every identity; and a
merge of what was merged before changes nothing. -/
theorem calendar_orderFree (versions : List CalendarEvent)
    (hread : ∀ e ∈ versions, Readable env e) (hfree : ConflictFree env (asSet versions)) :
    (∀ p : Plan, p.Offers versions → ∃ d, p.run env = .ok d ∧ CalendarOf env versions d) ∧
    (∀ p q : Plan, p.Offers versions → q.Offers versions →
      ∀ d d', p.run env = .ok d → q.run env = .ok d' → ∀ k, outcome env d k = outcome env d' k) ∧
    ∀ p : Plan, p.Offers versions → ∀ d, p.run env = .ok d →
      (∀ again : List CalendarEvent, again ⊆ versions →
        ∃ d', mergeEvents env d again = .ok d' ∧ SameButOrder d d' ∧
          ((∀ e ∈ versions, InOrder e) → d' = d)) ∧
      ∀ q : Plan, q.offered ⊆ versions → ∀ again, q.run env = .ok again →
        ∃ d', mergeEvents env d (values again) = .ok d' ∧ SameButOrder d d' ∧
          ((∀ e ∈ versions, InOrder e) → d' = d) := by
  have hplan : ∀ p : Plan, p.Offers versions → ∃ d, p.run env = .ok d ∧
      (ranking env).Covers (keyOf env) (asSet versions) (view d) := by
    intro p hp
    have hset : asSet p.offered = asSet versions := Set.ext hp
    have h := plan_covers (p := p) (fun e he => hread e ((hp e).1 he)) (hset ▸ hfree)
    rwa [hset] at h
  have hcovers : ∀ p : Plan, p.Offers versions → ∀ d, p.run env = .ok d →
      (ranking env).Covers (keyOf env) (asSet versions) (view d) := by
    intro p hp d hrun
    obtain ⟨d', hrun', hcov⟩ := hplan p hp
    obtain rfl := Except.ok.inj (hrun'.symm.trans hrun)
    exact hcov
  refine ⟨?_, ?_, ?_⟩
  · intro p hp
    obtain ⟨d, hrun, hcov⟩ := hplan p hp
    exact ⟨d, hrun, calendarOf_of_covers hread hcov⟩
  · intro p q hp hq d d' hrun hrun' k
    exact outcome_eq hread hfree (hcovers p hp d hrun) (hcovers q hq d' hrun') k
  · intro p hp d hrun
    have hcov := hcovers p hp d hrun
    have horder : (∀ e ∈ versions, InOrder e) → AllInOrder d :=
      fun h => plan_inOrder hrun fun e he => h e ((hp e).1 he)
    constructor
    · intro again hagain
      obtain ⟨hpart, hparts⟩ := brings_versions fun e he => hread e (hagain he)
      obtain ⟨d', hmerge, hsame, heq⟩ := @mergeEvents_again _ _ _ _ (fun u => {u}) hcov hpart
        (by rw [hparts]; exact fun e he => hagain he) hread hfree
      exact ⟨d', hmerge, hsame, fun h => heq (horder h)⟩
    · intro q hq again hagain
      have hreadq : ∀ e ∈ q.offered, Readable env e := fun e he => hread e (hq he)
      have hsub : asSet q.offered ⊆ asSet versions := fun e he => hq he
      obtain ⟨dq, hrunq, hcovq⟩ := plan_covers hreadq (hfree.mono hsub)
      obtain rfl := Except.ok.inj (hrunq.symm.trans hagain)
      obtain ⟨hpart, hparts⟩ := brings_values hcovq hreadq
      obtain ⟨d', hmerge, hsame, heq⟩ := mergeEvents_again hcov hpart
        (by rw [hparts]; exact hsub) hread hfree
      exact ⟨d', hmerge, hsame, fun h => heq (horder h)⟩

end Calendar

section Samples

def ascii (t : Text) : Bytes := t.map fun c => c.toNat.toUInt8

def sampleModified : Text := "2024-05-01T08:00:00+00:00".toList

def sampleTime : UtcTime :=
  ⟨2024, 5, 1, 8, 0, 0, 0, by decide, by decide, by decide, by decide, by decide, by decide,
    by decide⟩

def sampleOld : CalendarEvent where
  calendarId := "calendar".toList
  uid := "u".toList
  recurrenceId := []
  sequence := 0
  modified := []
  title := "Old".toList
  start := "2024-05-02".toList
  «end» := []
  cancelled := false
  people := []
  component :=
    ("BEGIN:VEVENT\r\nSUMMARY:Old\r\nDTSTART;VALUE=DATE:20240502\r\nUID:u\r\n" ++
      "END:VEVENT\r\n").toList
  timezoneComponents := []
  provenance := [⟨"1".toList, "2023.ics".toList, "2023.ics".toList, "2024-01-01".toList, []⟩]
  sourceEntries := ["2023.ics".toList]
  sourceEntry := "2023.ics".toList

def sampleNew : CalendarEvent :=
  { sampleOld with
    sequence := 1
    modified := sampleModified
    title := "New".toList
    component :=
      ("BEGIN:VEVENT\r\nSUMMARY:New\r\nDTSTART;VALUE=DATE:20240502\r\nUID:u\r\nSEQUENCE:1\r\n" ++
        "LAST-MODIFIED:20240501T080000Z\r\nEND:VEVENT\r\n").toList
    provenance := [⟨"2".toList, "2024.ics".toList, "2024.ics".toList, "2024-06-01".toList, []⟩]
    sourceEntries := ["2024.ics".toList]
    sourceEntry := "2024.ics".toList }

/-- Libraries that read one date and hash the texts of two components. -/
def sampleEnv : Env where
  fromisoformat t := if t = sampleModified then .ok ⟨true, .ok sampleTime⟩ else .error .valueError
  toIcal component := .ok (ascii component)
  encode := ascii
  sha256 data :=
    if data = ascii sampleOld.component then
      "2d3e4579217b1154e79eeb787c8652fe49f3653934d92563d0ce3466e66b8b30".toList
    else if data = ascii sampleNew.component then
      "6c29a2694212b54649c79d0060177630d121ca38479f366bc69b75cdf9c0d614".toList
    else "68a054096d98030649c38202687762f9b457f1c667c6706fed157544aee2e95f".toList

/-- Two exports in either order, one of them twice. -/
theorem calendar_orderFree_sample :
    ∃ d, ((Plan.empty.merge [sampleNew]).merge [sampleOld, sampleNew]).run sampleEnv = .ok d ∧
      CalendarOf sampleEnv [sampleOld, sampleNew] d := by
  have h := @calendar_orderFree sampleEnv [sampleOld, sampleNew]
    (by
      intro e he
      obtain rfl | he := List.mem_cons.1 he
      · exact ⟨⟨_, rfl⟩, ⟨_, rfl⟩, ⟨_, rfl⟩⟩
      · obtain rfl := List.mem_singleton.1 he
        exact ⟨⟨_, rfl⟩, ⟨_, rfl⟩, ⟨_, rfl⟩⟩)
    (by
      have hne : sampleOld.revision sampleEnv ≠ sampleNew.revision sampleEnv := by
        intro h
        have hseq : (0 : Int) = 1 := congrArg (fun r => (ofLex r).1) (Except.ok.inj h)
        omega
      intro a ha b hb _ hrev
      obtain rfl | ha := List.mem_cons.1 ha
      · obtain rfl | hb := List.mem_cons.1 hb
        · rfl
        · obtain rfl := List.mem_singleton.1 hb
          exact absurd hrev hne
      · obtain rfl := List.mem_singleton.1 ha
        obtain rfl | hb := List.mem_cons.1 hb
        · exact absurd hrev.symm hne
        · obtain rfl := List.mem_singleton.1 hb
          rfl)
  apply h.1
  intro e
  simp only [Plan.offered, List.mem_append, List.mem_cons, List.not_mem_nil]
  tauto

end Samples

end Coppermind.Calendar
