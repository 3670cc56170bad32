import GeistServe.Geistd.Wire

/-!
# Which model to set up: `setup_limit` and `app_recommend`

A model is an index into the table, as the pointers of the source are. The entry behind an
empty table is the zeroed one of the array. Sizes are the fixed-width ones of the source, so
a product can wrap.
-/

namespace GeistServe.App

open GeistServe.Geistd

/-! ## The catalog, the device, the files -/

/-- `APP_GIB`. -/
def APP_GIB : UInt64 := 1073741824

/-- `struct app_model`, as far as the limits go. -/
structure CatalogModel where
  id : CStr
  bytes : UInt64 := 0
  workingMib : UInt32 := 0
  recommendedRamGib : UInt32 := 0
  backends : UInt32 := 0
  unsupportedFormat : Option CStr := none
  deriving DecidableEq

inductive AppDevice where
  | unknown | appleSilicon | pi5
  deriving DecidableEq

/-- `struct app_hardware`. -/
structure AppHardware where
  device : AppDevice := .unknown
  ram : UInt64 := 0
  available : UInt64 := 0
  disk : UInt64 := 0
  cores : UInt32 := 0
  supported : Bool := false
  availableKnown : Bool := false
  diskKnown : Bool := false
  deriving DecidableEq

/-- `struct app_inventory`: what is on the disk of a model, and its measured speed. -/
structure AppInventory where
  installed : Bool := false
  partial_ : UInt64 := 0
  tps : Double := .fin 0
  deriving DecidableEq

/-- `app_models`, of which `app_model_count` are in use. -/
def entryAt (models : List CatalogModel) (i : Nat) : CatalogModel := models.getD i { id := [] }

/-- `app_model_find`. -/
def appModelFind (models : List CatalogModel) (id : Option CStr) : Option Nat :=
  id.bind fun id => models.findIdx? fun m => m.id == id

/-- The entry that needs the least memory. -/
def smallestModel (models : List CatalogModel) : Nat :=
  (List.range' 1 (models.length - 1)).foldl (fun small i =>
    if (entryAt models i).workingMib < (entryAt models small).workingMib then i else small) 0

/-! ## Limits -/

inductive Limit where
  | format | platform | unknown | ram | available | disk | speed
  deriving DecidableEq

def Limit.text : Limit → String
  | .format => "This model requires PQ2_0 and Hadamard support, unavailable in the bundled engine."
  | .platform => "This CPU instruction set or platform is not supported by the bundled engine."
  | .unknown => "Cannot check available memory or disk space. Retry the platform check."
  | .ram => "Not enough total RAM for this model's planning budget."
  | .available => "Available RAM is tight now. Close other apps before loading this model."
  | .disk => "Not enough disk space for the download plus 256 MiB reserve."
  | .speed => "Local performance is below the interactive setup target."

/-- `setup_limit`. -/
def setupLimit (h : AppHardware) (m : CatalogModel) (inventory : AppInventory) (running : Bool) :
    Option Limit :=
  if m.unsupportedFormat.isSome ∨ m.backends = 0 then some .format
  else if h.supported = false then some .platform
  else if h.ram = 0 ∨ h.availableKnown = false ∨ h.diskKnown = false then some .unknown
  else if h.ram < m.recommendedRamGib.toUInt64 * APP_GIB * 95 / 100 then some .ram
  else if running = false ∧ h.available < m.workingMib.toUInt64 * 1048576 then some .available
  else
    let remaining := m.bytes - (if inventory.partial_ ≤ m.bytes then inventory.partial_ else 0)
    if inventory.installed = false ∧ (h.disk < remaining ∨ h.disk - remaining < 256 * 1048576) then
      some .disk
    else none

/-- `app_rate_below_target`. -/
def appRateBelowTarget : Double → Bool
  | .fin rate => decide (0 < rate ∧ rate < 8)
  | _ => false

/-! ## The recommendation -/

/-- `struct app_recommendation`. -/
structure AppRecommendation where
  model : Option Nat
  preferred : Nat
  source : String
  reason : Option String
  eligible : Bool
  deriving DecidableEq

/-- The platform's default. -/
def preferredModel (models : List CatalogModel) (device : AppDevice) : Nat :=
  (appModelFind models (some (match device with
    | .appleSilicon => lit "gemma4-e2b"
    | .pi5 => lit "bitnet-2b"
    | .unknown => lit "smollm2-360m"))).getD (smallestModel models)

/-- The model that is tried when the default does not fit. -/
def fallbackModel (models : List CatalogModel) : Nat :=
  (appModelFind models (some (lit "smollm2-360m"))).getD (smallestModel models)

/-- What stands against one of the choices. -/
def choiceLimit (h : AppHardware) (models : List CatalogModel) (inventory : Nat → AppInventory)
    (m : Nat) : Option Limit :=
  match setupLimit h (entryAt models m) (inventory m) false with
  | some limit => some limit
  | none =>
      if (m ≠ fallbackModel models ∧ h.cores < 4) ∨ appRateBelowTarget (inventory m).tps then
        some .speed
      else none

/-- The loop over the choices, from the `i`-th on. -/
def recommendFrom (limitOf : Nat → Option Limit) (preferred : Nat) :
    Nat → List Nat → Option Limit → AppRecommendation
  | _, [], reason =>
      { model := none, preferred := preferred, source := "blocked",
        reason := reason.map Limit.text, eligible := false }
  | i, m :: choices, reason =>
      let limit := limitOf m
      let reason := if i = 0 then limit else reason
      match limit with
      | some _ => recommendFrom limitOf preferred (i + 1) choices reason
      | none =>
          { model := some m, preferred := preferred,
            source := if i = 0 then "default" else "fallback",
            reason := some (if i = 0 then
              "Platform default. Memory is estimated; answer quality is still unverified."
              else "A smaller model fits the available resources better."),
            eligible := true }

/-- `app_recommend`. -/
def appRecommend (h : AppHardware) (models : List CatalogModel) (inventory : Nat → AppInventory)
    (selected running : Option CStr) : AppRecommendation :=
  let preferred := preferredModel models h.device
  match appModelFind models selected with
  | some saved =>
      let m := entryAt models saved
      let limit := setupLimit h m (inventory saved) (running == some m.id)
      { model := some saved, preferred := preferred, source := "saved",
        reason := some ((limit.map Limit.text).getD
          "Your model choice is kept. Select another model below."),
        eligible := limit.isNone }
  | none =>
      recommendFrom (choiceLimit h models inventory) preferred 0 [preferred, fallbackModel models]
        none

end GeistServe.App
