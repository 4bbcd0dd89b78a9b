import Coppermind.Purge.Store
import Coppermind.Dossiers.Operations

/-!
# The ledger in memory and its pages

`observe` reads the page of a dossier back into the ledger in memory, and `sight` is what `project`
then has to do.  Neither adds or moves a dossier: `homes` says where each has its page.
-/

namespace Coppermind.Purge

open Coppermind.Lib Coppermind.Lib.Text Coppermind.Frontmatter
open Coppermind.Notes (Instant FileBytes)

/-- A dossier and the path of its page. -/
def home (e : Dossiers.Entity) : Text × Text := (e.id, e.path)

def homes (l : Dossiers.Ledger) : List (Text × Text) := l.entities.map home

/-- The place of the page of one of the dossiers. -/
def PageOf (dossiers : List (Text × Text)) (p : List PyStr) : Prop :=
  ∃ e ∈ dossiers, ∃ path, partsOf (PyStr.ofText e.2) = some path ∧ p = Area.notes.at path

section Homes

variable {l : Dossiers.Ledger} {env : Dossiers.Env} {now : Instant} {raw : FileBytes}
  {d d' : Dossiers.Draft}

theorem ids_eq_homes : l.entities.map (·.id) = (homes l).map (·.1) := by
  rw [homes, List.map_map]
  rfl

theorem homes_modify {f : Dossiers.Entity → Dossiers.Entity} (hf : ∀ e, home (f e) = home e)
    (id : Text) : homes (l.modify id f) = homes l := by
  rw [homes, homes, Dossiers.Ledger.modify, List.map_map]
  refine List.map_congr_left fun e _ => ?_
  rw [Function.comp_apply]
  split
  · exact hf e
  · rfl

theorem homes_receipt (id action : Text) (details : Dossiers.Receipt) :
    homes (l.receipt id action now details) = homes l :=
  homes_modify (fun _ => by rfl) id

theorem home_correction {predicate value : Text} {previous : Option Nat} {target : Option Text}
    {drawn : Nat} (e : Dossiers.Entity) :
    home (Dossiers.correction env e predicate value raw previous target drawn now) = home e := by
  cases previous <;> rfl

theorem homes_observeFact {id generated block : Text} {index : Nat} :
    homes (Dossiers.observeFact env id generated block raw now d index).ledger = homes d.ledger := by
  unfold Dossiers.observeFact
  split
  · rfl
  · split
    · rfl
    · split
      · rfl
      · split
        · exact homes_modify (fun _ => by rfl) id
        · split
          · rfl
          · dsimp only
            split <;> exact homes_modify home_correction id

theorem homes_observeBlock {id generated block : Text} :
    homes (Dossiers.observeBlock env id generated block raw now d).ledger = homes d.ledger := by
  have hfacts : ∀ indices : List Nat,
      homes (indices.foldl (Dossiers.observeFact env id generated block raw now) d).ledger =
        homes d.ledger := by
    intro indices
    refine List.foldlRecOn (motive := fun d' : Dossiers.Draft => homes d'.ledger = homes d.ledger)
      indices _ rfl fun d' hd' index _ => ?_
    exact homes_observeFact.trans hd'
  unfold Dossiers.observeBlock
  dsimp only
  rw [homes_receipt]
  refine (homes_modify (fun _ => by rfl) id).trans ?_
  split
  · exact hfacts _
  · exact (homes_modify home_correction id).trans (hfacts _)

/-- **A page that is read back** adds no dossier and moves none. -/
theorem homes_observePage {e : Dossiers.Entity}
    (h : Dossiers.observePage env e raw now d = .ok d') : homes d'.ledger = homes d.ledger := by
  unfold Dossiers.observePage at h
  split at h
  · cases h
  · split at h
    · cases h
    · split at h
      · cases h
      · split at h
        · split at h
          · cases h
          · split at h
            · cases h
            · dsimp only at h
              split at h
              · obtain rfl := Except.ok.inj h
                exact homes_modify (fun _ => by rfl) e.id
              · split at h
                · obtain rfl := Except.ok.inj h
                  exact homes_modify (fun _ => by rfl) e.id
                · obtain rfl := Except.ok.inj h
                  exact homes_observeBlock.trans (homes_modify (fun _ => by rfl) e.id)
        · cases h

theorem homes_observeGone {e : Dossiers.Entity} :
    homes (Dossiers.observeGone e now d).ledger = homes d.ledger := by
  unfold Dossiers.observeGone
  split
  · exact (homes_receipt _ _ _).trans (homes_modify (fun _ => by rfl) e.id)
  · rfl

theorem homes_purgeLedger {noteIds entityIds : List Text} :
    homes (Dossiers.purgeLedger env noteIds entityIds now l) =
      (homes l).filter (·.1 ∉ entityIds) := by
  simp only [homes, Dossiers.purgeLedger, List.filter_map, List.map_map]
  rfl

end Homes

namespace Memory

variable (m : Memory)

/-- Another ledger with the same dossiers. -/
def become (d : Dossiers.Draft) (h : homes d.ledger = homes m.ledger) : Memory where
  toDraft := d
  keyed := by
    rw [ids_eq_homes, h, ← ids_eq_homes]
    exact m.keyed

def modify (id : Text) (f : Dossiers.Entity → Dossiers.Entity) (hf : ∀ e, home (f e) = home e) :
    Memory :=
  m.become { m.toDraft with ledger := m.ledger.modify id f } (homes_modify hf id)

def ids : List Text := m.ledger.entities.map (·.id)

/-- `save`, up to the writing of the file. -/
def revised : Memory :=
  m.become { m.toDraft with ledger := { m.ledger with revision := m.ledger.revision + 1 } } rfl

def projectText : String :=
  "Dossier page could not be projected; check its identity, delimiter and path"

/-- The handler of `project`. -/
def troubled (id : Text) : Memory :=
  m.modify id (fun e => { e with problem := some projectText.toList }) fun _ => rfl

/-- A dossier whose page was written. -/
def written (id block : Text) : Memory :=
  m.modify id (fun e => { e with generated := some block, pending := none, problem := none })
    fun _ => rfl

/-- A retired dossier keeps nothing of what was projected. -/
def forget (id : Text) : Memory :=
  m.modify id (fun e => if e.retiredAt.isSome then { e with generated := none, pending := none }
    else e) fun e => by split <;> rfl

/-- What a purge leaves of the ledger, its own receipt apart. -/
def scrub (env : Env) (noteIds entityIds : List Text) (now : Instant) : Memory where
  ledger := Dossiers.purgeLedger env.dossiers noteIds entityIds now m.ledger
  drawn := m.drawn
  keyed := m.keyed.sublist Dossiers.purgeLedger_ids_sublist

/-- The receipt of a purge. -/
def noted (token : Text) : Memory :=
  m.become { m.toDraft with ledger := { m.ledger with
    receipts := m.ledger.receipts ++ [{ purge := some token }] } } rfl

@[simp] theorem homes_become (d : Dossiers.Draft) (h : homes d.ledger = homes m.ledger) :
    homes (m.become d h).ledger = homes m.ledger := h

@[simp] theorem homes_modify (id : Text) (f : Dossiers.Entity → Dossiers.Entity)
    (hf : ∀ e, home (f e) = home e) : homes (m.modify id f hf).ledger = homes m.ledger :=
  Purge.homes_modify hf id

@[simp] theorem homes_revised : homes m.revised.ledger = homes m.ledger := rfl

@[simp] theorem homes_troubled (id : Text) : homes (m.troubled id).ledger = homes m.ledger :=
  homes_modify _ _ _ _

@[simp] theorem homes_written (id block : Text) :
    homes (m.written id block).ledger = homes m.ledger :=
  homes_modify _ _ _ _

@[simp] theorem homes_forget (id : Text) : homes (m.forget id).ledger = homes m.ledger :=
  homes_modify _ _ _ _

@[simp] theorem homes_noted (token : Text) : homes (m.noted token).ledger = homes m.ledger := rfl

end Memory

/-- The place of the page of a dossier, `safe_path`. -/
def pagePlace? (d : Disk) (e : Dossiers.Entity) : Option (List PyStr) :=
  (partsOf (PyStr.ofText e.path)).bind (resolve d .notes)

/-- What `project` has to do once it has read the page. -/
inductive Sight where
  | kept (m : Memory)
  /-- The page is to be written, with this block below its delimiter. -/
  | write (m : Memory) (block : Text) (page : FileBytes)

def Sight.memory : Sight → Memory
  | .kept m => m
  | .write m _ _ => m

section Sights

variable (env : Env) (d : Disk) (now : Instant) (seen : Dossiers.Seen) (m : Memory)

/-- `observe`; none where it raises. -/
def observe (e : Dossiers.Entity) : Option (Memory × Option FileBytes) :=
  match pagePlace? d e with
  | none => none
  | some place =>
    if d.existsAt place then
      match file? d place with
      | none => none
      | some raw =>
        match h : Dossiers.observePage env.dossiers e raw now m.toDraft with
        | .ok draft => some (m.become draft (homes_observePage h), some raw)
        | .error _ => none
    else some (m.become (Dossiers.observeGone e now m.toDraft) homes_observeGone, none)

/-- The page a pass has seen, or else the page as it is now. -/
def seenOr (e : Dossiers.Entity) : Option (Memory × Option FileBytes) :=
  match seen.get? e.id with
  | some raw => some (m, raw)
  | none => observe env d now m e

/-- `project`, up to its first writing. -/
def sight (id : Text) : Sight :=
  match m.ledger.find? id with
  | none => .kept m
  | some e =>
    match seenOr env d now seen m e with
    | none => .kept (m.troubled id)
    | some (m, raw) =>
      match Dossiers.planOf env.dossiers id raw m.ledger with
      | .error _ => .kept (m.troubled id)
      | .ok .nothing => .kept m
      | .ok .settled => .kept (m.modify id (fun e => { e with problem := none }) fun _ => rfl)
      | .ok (.write _ block wanted) =>
        .write (m.modify id (fun e => { e with pending := some block }) fun _ => rfl) block
          (.utf8 wanted)

variable {env d now seen m}

theorem homes_observe {e : Dossiers.Entity} {m' : Memory} {raw : Option FileBytes}
    (h : observe env d now m e = some (m', raw)) : homes m'.ledger = homes m.ledger := by
  unfold observe at h
  split at h
  · cases h
  · split at h
    · split at h
      · cases h
      · split at h
        · obtain ⟨rfl, -⟩ := Prod.mk.inj (Option.some.inj h)
          exact Memory.homes_become _ _ _
        · cases h
    · obtain ⟨rfl, -⟩ := Prod.mk.inj (Option.some.inj h)
      exact Memory.homes_become _ _ _

theorem homes_seenOr {e : Dossiers.Entity} {m' : Memory} {raw : Option FileBytes}
    (h : seenOr env d now seen m e = some (m', raw)) : homes m'.ledger = homes m.ledger := by
  unfold seenOr at h
  split at h
  · obtain ⟨rfl, -⟩ := Prod.mk.inj (Option.some.inj h)
    rfl
  · exact homes_observe h

/-- **What `project` sees** adds no dossier and moves none. -/
theorem homes_sight {id : Text} :
    homes (sight env d now seen m id).memory.ledger = homes m.ledger := by
  unfold sight
  split
  · rfl
  · split
    · exact Memory.homes_troubled _ _
    · next hseen =>
      rw [← homes_seenOr hseen]
      split
      · exact Memory.homes_troubled _ _
      · rfl
      · exact Purge.homes_modify (fun _ => by rfl) id
      · exact Purge.homes_modify (fun _ => by rfl) id

end Sights

end Coppermind.Purge
