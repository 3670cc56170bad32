import GeistServe.Lib.Machine
import GeistServe.Lib.Memo
import GeistServe.Supervisor.State

/-!
# The model catalog

The table of models, the text of the catalog in effect and the address where that
text is kept, the saved catalog, and what is stored under the file names: the model
files and the partial downloads. Imports replace the table; downloads, removals and
loads work with it. A status request ranks the catalog in effect, parsed once for
each address of its text.

The parsing and the ranking are geist-runtime's, and come as a parameter.
-/

namespace GeistServe.Catalog

open GeistServe.Lib
open GeistServe.Supervisor (Model)

abbrev APP_CATALOG_BYTES : Nat := 24576
abbrev APP_MODEL_COUNT : Nat := 32

/-- `struct app_catalog`, as far as its entries go. -/
structure AppCatalog where
  revision : Nat
  models : List Model
  deriving DecidableEq

/-- geist-runtime: the parser of catalog texts, the ranking of a catalog for what a
status request knows of the device and of the local files, and the fit that a
ranking has for an entry. -/
structure Runtime (ι ρ ν : Type) where
  geistrCatalogParse : String → Option AppCatalog
  geistrRank : AppCatalog → ι → Option ρ
  geistrRankingGet : ρ → Nat → Option ν

variable {ι ρ ν : Type}

/-- `app_catalog_parse`. -/
def Runtime.appCatalogParse (rt : Runtime ι ρ ν) (text : String) : Option AppCatalog :=
  if text.utf8ByteSize > APP_CATALOG_BYTES then none
  else (rt.geistrCatalogParse text).filter fun c => decide (c.models.length ≤ APP_MODEL_COUNT)

/-- What is stored under a file name: the sizes of the model file and of the partial
download, 0 where there is none. `origin` is kept for the proofs: the hash and the
size of the entry that the data was stored for. -/
structure Stored where
  complete : Nat
  partial_ : Nat
  origin : Nat × Nat
  deriving DecidableEq

def Stored.present (d : Stored) : Bool := decide (d.complete ≠ 0 ∨ d.partial_ ≠ 0)

/-- A model job: its entry, and whether it downloads. -/
structure Job where
  model : Model
  download : Bool
  deriving DecidableEq

/-- `table`, `revision` and `json` are `app_models`, `app_catalog_revision` and
`app_catalog_json`, an address; `source` is the text there. `saved` is catalog.json,
and `ranked` what a status request keeps: the catalog it has parsed under an address,
if that could be done. -/
structure Library where
  table : List Model
  revision : Nat
  json : Option Nat
  source : String
  saved : Option String
  stored : Nat → Stored
  selected : Option Nat
  activeId : Option Nat
  pid : Bool
  ready : Bool
  compare : Bool
  generating : Bool
  job : Option Job
  ranked : Memo (Option Nat) (Option AppCatalog)

/-- `app_model_find` and `app_catalog_find`. -/
def findModel (models : List Model) (id : Option Nat) : Option Model :=
  models.find? fun m => decide (some m.id = id)

/-! ## Imports -/

/-- What a running model must keep. -/
def changed (o n : Model) : Bool :=
  decide (o.sha256 ≠ n.sha256 ∨ o.file ≠ n.file ∨ o.backends ≠ n.backends ∨ o.bytes ≠ n.bytes)

/-- The running model would not stay as it is. -/
def Library.moves (s : Library) (c : AppCatalog) : Bool :=
  s.ready && (findModel s.table s.activeId).any fun o =>
    (findModel c.models s.activeId).all (changed o)

/-- An entry takes the file name of an entry of the table for another hash or size,
while there is data under it. -/
def Library.reassigns (s : Library) (c : AppCatalog) : Bool :=
  s.table.any fun previous => c.models.any fun replacement =>
    decide (previous.file = replacement.file ∧
      (previous.sha256 ≠ replacement.sha256 ∨ previous.bytes ≠ replacement.bytes)) &&
      (s.stored previous.file).present

/-- `app_catalog_apply`, with the text saved before. -/
def Library.apply (s : Library) (c : AppCatalog) (text : String) (address : Nat) : Library :=
  { s with
    table := c.models
    revision := c.revision
    json := some address
    source := text
    saved := some text
    selected := if (findModel c.models s.selected).isNone then none else s.selected }

/-- `import_catalog`: the state and the code of the response. The block of the parsed
catalog is at `address`; `saves` says whether catalog.json can be written. -/
def Library.importCatalog (s : Library) (rt : Runtime ι ρ ν) (text : String) (address : Nat)
    (saves : Bool) : Library × Nat :=
  match rt.appCatalogParse text with
  | none => (s, 400)
  | some candidate =>
      if s.compare ∨ s.job.isSome ∨ s.generating ∨ (s.pid ∧ s.ready = false) then (s, 409)
      else if candidate.revision ≤ s.revision then (s, 409)
      else if s.moves candidate then (s, 409)
      else if s.reassigns candidate then (s, 409)
      else if saves = false then (s, 500)
      else (s.apply candidate text address, 200)

/-! ## Status -/

/-- The ranking of a status response, and the verdicts beside the models of the
table. -/
structure Response (ρ ν : Type) where
  ranking : Option ρ
  verdicts : List (Option ν)

/-- The response for a ranked catalog. -/
def Library.respond (s : Library) (rt : Runtime ι ρ ν) (c : Option AppCatalog) (input : ι) :
    Response ρ ν :=
  let ranking := c.bind (rt.geistrRank · input)
  ⟨ranking, (List.range s.table.length).map fun i => ranking.bind (rt.geistrRankingGet · i)⟩

/-- The catalog that a status request parses: it has to have as many entries as the
table. -/
def Library.parsed (s : Library) (rt : Runtime ι ρ ν) : Option AppCatalog :=
  (rt.geistrCatalogParse s.source).filter fun c => decide (c.models.length = s.table.length)

/-- `status_response`, as far as the ranking goes. -/
def Library.statusResponse (s : Library) (rt : Runtime ι ρ ν) (input : ι) :
    Library × Response ρ ν :=
  let ranked := s.ranked.get s.json (s.parsed rt)
  ({ s with ranked := ranked.1 }, s.respond rt ranked.2 input)

/-! ## Downloads, removals, loads -/

/-- `begin_job`. -/
def Library.beginJob (s : Library) (id : Nat) (download : Bool) : Library :=
  match findModel s.table (some id) with
  | some m =>
      if s.compare ∨ s.job.isSome ∨ m.unsupportedFormat ∨ m.backends = 0 then s
      else { s with job := some ⟨m, download⟩ }
  | none => s

def Library.store (s : Library) (m : Model) (complete partial_ : Nat) : Library :=
  { s with stored := Function.update s.stored m.file ⟨complete, partial_, (m.sha256, m.bytes)⟩ }

/-- How a model job ends with the file it has verified: a download of the right size is
put in place, a file that does not match is unlinked, or everything is left. -/
inductive JobEnd where
  | placed | discarded | left

def Library.jobEnd (s : Library) (j : Job) (e : JobEnd) : Library :=
  let d := s.stored j.model.file
  let s := match e, j.download with
    | .placed, true => if d.partial_ = j.model.bytes then s.store j.model d.partial_ 0 else s
    | .discarded, true => s.store j.model d.complete 0
    | .discarded, false => s.store j.model 0 d.partial_
    | _, _ => s
  { s with job := none }

/-- A removal takes the model file and the partial download, as far as they can be
unlinked. -/
def Library.remove (s : Library) (id : Nat) (complete partial_ : Bool) : Library :=
  match findModel s.table (some id) with
  | some m =>
      if s.compare ∨ s.job.isSome ∨ s.generating then s
      else
        let d := s.stored m.file
        let left : Stored :=
          ⟨if complete then 0 else d.complete, if partial_ then 0 else d.partial_, d.origin⟩
        { s with stored := Function.update s.stored m.file left }
  | none => s

/-! ## The machine -/

/-- `load`, `loaded` and `stop` stand for everything that starts, publishes and stops
the model process. -/
inductive Act (ι : Type) where
  | importCatalog (text : String) (address : Nat) (saves : Bool)
  | status (input : ι)
  | beginJob (id : Nat) (download : Bool)
  | receive (size : Nat)
  | jobEnd (e : JobEnd)
  | remove (id : Nat) (complete partial_ : Bool)
  | load (id : Option Nat)
  | loaded
  | stop
  | infer (running : Bool)
  | comparison (running : Bool)

/-- An import is given a block that is not in use. -/
def Library.step (rt : Runtime ι ρ ν) (s : Library) : Act ι → Option Library
  | .importCatalog text address saves =>
      if s.json = some address then none else some (s.importCatalog rt text address saves).1
  | .status input => some (s.statusResponse rt input).1
  | .beginJob id download => some (s.beginJob id download)
  | .receive size =>
      match s.job with
      | some j =>
          if j.download ∧ size ≤ j.model.bytes then
            some (s.store j.model (s.stored j.model.file).complete size)
          else none
      | none => none
  | .jobEnd e => s.job.map fun j => s.jobEnd j e
  | .remove id complete partial_ => some (s.remove id complete partial_)
  | .load id => some { s with activeId := id, pid := true, ready := false }
  | .loaded => if s.pid then some { s with ready := true } else none
  | .stop => some { s with pid := false, ready := false }
  | .infer running => some { s with generating := running }
  | .comparison running => some { s with compare := running }

/-- Every entry of the table whose file name has data is the one that the data was
stored for. -/
def Library.Respected (s : Library) : Prop :=
  ∀ m ∈ s.table, (s.stored m.file).present = true →
    (m.sha256, m.bytes) = (s.stored m.file).origin

/-- The app at its start, with the bundled or the saved catalog in effect, and with
what it has stored under it earlier. -/
structure Library.Initial (rt : Runtime ι ρ ν) (s : Library) : Prop where
  source : rt.geistrCatalogParse s.source = some ⟨s.revision, s.table⟩
  ranked : s.ranked.entry = none
  job : s.job = none
  stored : s.Respected

def libraryMachine (rt : Runtime ι ρ ν) : Machine Library (Act ι) where
  init := Library.Initial rt
  step := Library.step rt

end GeistServe.Catalog
