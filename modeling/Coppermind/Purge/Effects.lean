import Coppermind.Lib.Commands
import Coppermind.Purge.Context
import Coppermind.Purge.Pages
import Coppermind.Purge.Plan

/-!
# The steps of a purge

A step is at every file that an operation reads or writes and at every statement it waits for.  The
site of a step says what the step does: `effect` carries it out.
-/

namespace Coppermind.Purge

open Coppermind.Lib Coppermind.Frontmatter
open Coppermind.Notes (Instant FileBytes)

/-- The steps of an operation. -/
inductive Site where
  | find | records | settings | references | recovery | rows | plan | verify
  | refresh
  | write (record : Record)
  | discard (folder : Folder) (token : PyStr)
  | begin | check
  | commit (items : List Item)
  | acknowledge
  | compare (f : Listed)
  | unlink (f : Listed)
  | stat (place : List PyStr)
  | rmdir (place : List PyStr)
  | sync (place : List PyStr)
  | ledger
  | readBook (book : Book)
  | writeBook (book : Book) (members : List (PyStr × Json))
  | dropCompletion (id : PyStr)
  | corrections
  | readCorrection (name : PyStr)
  | dropCorrection (name : PyStr)
  | jobs
  | dropJob (name : PyStr)
  | emptyDossiers
  | catalog (m : Memory)
  | observe (id : Text)
  | page (id : Text) (data : FileBytes)
  | mirror | outcome
  | quarantine (folder : Folder) (token : PyStr)

namespace World

variable (w : World)

/-- What a purge file holds, `_load`, without what the reading fails on. -/
def receipt? (folder : Folder) (token : PyStr) : Option Record :=
  ((w.receipts folder).lookup token).join.filter (·.token = token)

def setReceipts (folder : Folder) (files : AList fun _ : PyStr => Option Record) : World :=
  { w with receipts := Function.update w.receipts folder files }

/-- The rows of a list of items, in one transaction. -/
def commit (items : List Item) : World :=
  let notes := (items.filter (·.kind = .note)).map Item.id
  let sources := (items.filter (·.kind = .source)).map Item.id
  let entities := (items.filter (·.kind = .entity)).map Item.id
  { w with
    notes := w.notes.filter (·.id ∉ notes)
    sources := w.sources.filter (·.id ∉ sources)
    links := w.links.filter fun l => l.noteId ∉ notes ∧ l.sourceId ∉ sources
    entityRows := w.entityRows.filter fun row => PyStr.ofText row.id ∉ entities
    notes_keyed := w.notes_keyed.sublist (List.filter_sublist.map _)
    sources_keyed := w.sources_keyed.sublist (List.filter_sublist.map _) }

/-- The page of a dossier that the catalog has, with other bytes. -/
def writePage (id : Text) (data : FileBytes) : Disk :=
  match (w.ledger.find? id).bind (pagePlace? w.disk) with
  | some place => w.disk.insert place (.file data)
  | none => w.disk

def withContext (c : Context) : World := { w with context := c }

/-- `save` of the entity service. -/
def withCatalog (m : Memory) : World := { w with ledger := m.ledger, ledger_keyed := m.keyed }

/-- `mirror`: the rows of the dossiers are those of the catalog, which the ledger in memory has just
been saved to or loaded from. -/
def mirrored : World := { w with entityRows := w.ledger.entities.map EntityRow.of }

end World

/-- What a step does. -/
def effect (site : Site) (w : World) : World :=
  match site with
  | .write record =>
    let folder := record.state.folder
    w.setReceipts folder ((w.receipts folder).insert record.token (some record))
  | .discard folder token => w.setReceipts folder ((w.receipts folder).erase token)
  | .quarantine folder token =>
    { w.setReceipts folder ((w.receipts folder).erase token) with
      quarantined := token :: w.quarantined }
  | .commit items => w.commit items
  | .unlink f => { w with disk := w.disk.erase f.place }
  | .rmdir place => { w with disk := if w.disk.removable place then w.disk.erase place else w.disk }
  | .writeBook book members => w.withContext (w.context.writeBook book members)
  | .dropCompletion id => w.withContext (w.context.dropCompletion id)
  | .dropCorrection name => w.withContext (w.context.dropCorrection name)
  | .dropJob name => w.withContext (w.context.dropJob name)
  | .emptyDossiers => w.withContext w.context.emptyDossiers
  | .catalog m => w.withCatalog m
  | .page id data => { w with disk := w.writePage id data }
  | .mirror => w.mirrored
  | _ => w

abbrev Job (α : Type) := Task Site World Raised α

inductive Request where
  | preview
  | confirm (token : PyStr)
  | abandon (token : PyStr)
deriving DecidableEq

/-- A call: what it asks, the clock, the tokens it draws, how many identifiers of dossiers were drawn
before, and the receipts it cannot read. -/
structure Call where
  request : Request
  now : Instant
  fresh : PyStr
  failureToken : PyStr
  drawn : Nat
  blind : Folder → PyStr → Bool

end Coppermind.Purge
