import GeistServe.App.Recommend

/-!
# What a recommendation says

The limits are comparisons of fixed-width sizes. Of their products only the one of the total
RAM could wrap, and within the catalog's bound it does not: the code's limits are the exact
ones (`setupLimit_none_iff`). More of everything passes every limit that less passes, so an
acceptable choice stays acceptable, and the loop over the choices finds one if there is one
(`recommendFrom_eligible`).
-/

namespace GeistServe.App

open GeistServe.Geistd

/-! ## The exact limits -/

/-- The limits of a setup, over the natural numbers. Available memory is asked of a model that
still has to be loaded, and disk space of one that still has to be downloaded. -/
structure Passes (h : AppHardware) (m : CatalogModel) (inventory : AppInventory) (running : Bool) :
    Prop where
  format : m.unsupportedFormat = none
  backends : m.backends ≠ 0
  platform : h.supported = true
  ramKnown : h.ram.toNat ≠ 0
  availableKnown : h.availableKnown = true
  diskKnown : h.diskKnown = true
  ram : m.recommendedRamGib.toNat * 2 ^ 30 * 95 / 100 ≤ h.ram.toNat
  available : running = false → m.workingMib.toNat * 2 ^ 20 ≤ h.available.toNat
  disk : inventory.installed = false →
    m.bytes.toNat - (if inventory.partial_.toNat ≤ m.bytes.toNat then inventory.partial_.toNat else 0) +
      256 * 2 ^ 20 ≤ h.disk.toNat

/-- The bound on the total RAM that an entry may ask for. -/
def CatalogModel.InBounds (m : CatalogModel) (gib : Nat) : Prop := m.recommendedRamGib.toNat ≤ gib

theorem planned_toNat {m : CatalogModel} {gib : Nat} (hgib : gib * 2 ^ 30 * 95 < 2 ^ 64)
    (hm : m.InBounds gib) :
    (m.recommendedRamGib.toUInt64 * APP_GIB * 95 / 100).toNat =
      m.recommendedRamGib.toNat * 2 ^ 30 * 95 / 100 := by
  unfold CatalogModel.InBounds at hm
  have hgiga : APP_GIB.toNat = 2 ^ 30 := rfl
  have hninety : (95 : UInt64).toNat = 95 := rfl
  have hhundred : (100 : UInt64).toNat = 100 := rfl
  rw [UInt64.toNat_div, UInt64.toNat_mul, UInt64.toNat_mul, hgiga, hninety, hhundred,
    UInt32.toNat_toUInt64, Nat.mod_eq_of_lt (by omega), Nat.mod_eq_of_lt (by omega)]

theorem working_toNat (m : CatalogModel) :
    (m.workingMib.toUInt64 * 1048576).toNat = m.workingMib.toNat * 2 ^ 20 := by
  have hlt := m.workingMib.toNat_lt
  have hmega : (1048576 : UInt64).toNat = 2 ^ 20 := rfl
  rw [UInt64.toNat_mul, hmega, UInt32.toNat_toUInt64, Nat.mod_eq_of_lt (by omega)]

theorem remaining_toNat (bytes part : UInt64) :
    (bytes - (if part ≤ bytes then part else 0)).toNat =
      bytes.toNat - (if part.toNat ≤ bytes.toNat then part.toNat else 0) := by
  by_cases h : part ≤ bytes
  · rw [if_pos h, if_pos (UInt64.le_iff_toNat_le.mp h), UInt64.toNat_sub_of_le _ _ h]
  · rw [if_neg h, if_neg (fun hn => h (UInt64.le_iff_toNat_le.mpr hn))]
    simp

/-- Neither the space that is missing nor what is left behind it wraps. -/
theorem disk_suffices (disk remaining : UInt64) :
    ¬ (disk < remaining ∨ disk - remaining < 256 * 1048576) ↔
      remaining.toNat + 256 * 2 ^ 20 ≤ disk.toNat := by
  have hreserve : (256 * 1048576 : UInt64).toNat = 256 * 2 ^ 20 := rfl
  rw [not_or, UInt64.lt_iff_toNat_lt, UInt64.lt_iff_toNat_lt, hreserve]
  constructor
  · rintro ⟨hless, hleft⟩
    rw [UInt64.toNat_sub_of_le _ _ (UInt64.le_iff_toNat_le.mpr (by omega))] at hleft
    omega
  · intro hsum
    have hless : ¬ disk.toNat < remaining.toNat := by omega
    refine ⟨hless, ?_⟩
    rw [UInt64.toNat_sub_of_le _ _ (UInt64.le_iff_toNat_le.mpr (by omega))]
    omega

/-- No limit stands against the model, in the code's own sizes. -/
theorem setupLimit_none {h : AppHardware} {m : CatalogModel} {inventory : AppInventory}
    {running : Bool} : setupLimit h m inventory running = none ↔
      (m.unsupportedFormat = none ∧ m.backends ≠ 0) ∧ h.supported = true ∧
      (h.ram ≠ 0 ∧ h.availableKnown = true ∧ h.diskKnown = true) ∧
      m.recommendedRamGib.toUInt64 * APP_GIB * 95 / 100 ≤ h.ram ∧
      (running = false → m.workingMib.toUInt64 * 1048576 ≤ h.available) ∧
      (inventory.installed = false →
        (m.bytes - (if inventory.partial_ ≤ m.bytes then inventory.partial_ else 0)).toNat +
          256 * 2 ^ 20 ≤ h.disk.toNat) := by
  simp only [setupLimit, ← disk_suffices]
  generalize m.bytes - (if inventory.partial_ ≤ m.bytes then inventory.partial_ else 0) = remaining
  constructor
  · intro hnone
    split at hnone
    · cases hnone
    · next hformat =>
        split at hnone
        · cases hnone
        · next hplatform =>
            split at hnone
            · cases hnone
            · next hunknown =>
                split at hnone
                · cases hnone
                · next hram =>
                    split at hnone
                    · cases hnone
                    · next havailable =>
                        split at hnone
                        · cases hnone
                        · next hdisk =>
                            refine ⟨?_, by simpa using hplatform, by simpa using hunknown,
                              UInt64.not_lt.mp hram, ?_, fun hi hd => hdisk ⟨hi, hd⟩⟩
                            · simpa using hformat
                            · exact fun hr => UInt64.not_lt.mp fun hlt => havailable ⟨hr, hlt⟩
  · rintro ⟨⟨hformat, hbackends⟩, hplatform, ⟨hram, havailable, hdisk⟩, hplan, hworking, hspace⟩
    rw [if_neg (by simp [hformat, hbackends]), if_neg (by simp [hplatform]),
      if_neg (by simp [hram, havailable, hdisk]), if_neg (UInt64.not_lt.mpr hplan),
      if_neg (fun hlt => UInt64.not_lt.mpr (hworking hlt.1) hlt.2),
      if_neg (fun hlt => hspace hlt.1 hlt.2)]

/-- Within the catalog's bound the limits are the exact ones. -/
theorem setupLimit_none_iff {h : AppHardware} {m : CatalogModel} {inventory : AppInventory}
    {running : Bool} {gib : Nat} (hgib : gib * 2 ^ 30 * 95 < 2 ^ 64) (hm : m.InBounds gib) :
    setupLimit h m inventory running = none ↔ Passes h m inventory running := by
  rw [setupLimit_none, UInt64.le_iff_toNat_le, UInt64.le_iff_toNat_le, planned_toNat hgib hm,
    working_toNat, remaining_toNat]
  have hzero : h.ram ≠ 0 ↔ h.ram.toNat ≠ 0 := not_congr UInt64.toNat_inj.symm
  rw [hzero]
  constructor
  · rintro ⟨⟨hformat, hbackends⟩, hplatform, ⟨hram, havailable, hdisk⟩, hplan, hworking, hspace⟩
    exact ⟨hformat, hbackends, hplatform, hram, havailable, hdisk, hplan, hworking, hspace⟩
  · rintro ⟨hformat, hbackends, hplatform, hram, havailable, hdisk, hplan, hworking, hspace⟩
    exact ⟨⟨hformat, hbackends⟩, hplatform, ⟨hram, havailable, hdisk⟩, hplan, hworking, hspace⟩

/-! ## More of everything -/

/-- A device of the same description with at least as much RAM, available memory, disk and
cores. -/
structure AtLeast (h h' : AppHardware) : Prop where
  same : h' = { h with ram := h'.ram, available := h'.available, disk := h'.disk, cores := h'.cores }
  ram : h.ram ≤ h'.ram
  available : h.available ≤ h'.available
  disk : h.disk ≤ h'.disk
  cores : h.cores ≤ h'.cores

theorem AtLeast.fields {h h' : AppHardware} (hle : AtLeast h h') :
    h'.device = h.device ∧ h'.supported = h.supported ∧ h'.availableKnown = h.availableKnown ∧
      h'.diskKnown = h.diskKnown := by
  rw [hle.same]
  exact ⟨rfl, rfl, rfl, rfl⟩

theorem setupLimit_mono {h h' : AppHardware} (hle : AtLeast h h') {m : CatalogModel}
    {inventory : AppInventory} {running : Bool} (hnone : setupLimit h m inventory running = none) :
    setupLimit h' m inventory running = none := by
  obtain ⟨-, hsupported, havailable, hdisk⟩ := hle.fields
  rw [setupLimit_none] at hnone ⊢
  obtain ⟨hformat, hplatform, ⟨hram, hak, hdk⟩, hplan, hworking, hspace⟩ := hnone
  refine ⟨hformat, hsupported.trans hplatform, ⟨?_, havailable.trans hak, hdisk.trans hdk⟩,
    UInt64.le_trans hplan hle.ram, fun hr => UInt64.le_trans (hworking hr) hle.available,
    fun hi => Nat.le_trans (hspace hi) (UInt64.le_iff_toNat_le.mp hle.disk)⟩
  intro hzero
  have hless := UInt64.le_iff_toNat_le.mp hle.ram
  rw [hzero] at hless
  exact hram (UInt64.toNat_inj.mp (Nat.le_zero.mp hless))

/-- A model that the app chooses by itself has enough cores, or is the small one, and was not
measured to be slow. -/
def Suits (h : AppHardware) (models : List CatalogModel) (inventory : Nat → AppInventory) (m : Nat) :
    Prop :=
  (m = fallbackModel models ∨ 4 ≤ h.cores) ∧ appRateBelowTarget (inventory m).tps = false

theorem choiceLimit_none {h : AppHardware} {models : List CatalogModel}
    {inventory : Nat → AppInventory} {m : Nat} : choiceLimit h models inventory m = none ↔
      setupLimit h (entryAt models m) (inventory m) false = none ∧ Suits h models inventory m := by
  unfold choiceLimit Suits
  cases setupLimit h (entryAt models m) (inventory m) false with
  | some limit => simp
  | none =>
      simp only [ite_eq_right_iff, reduceCtorEq, imp_false, not_or, not_and, UInt32.not_lt,
        true_and, Bool.not_eq_true]
      rw [← or_iff_not_imp_left]

theorem choiceLimit_mono {h h' : AppHardware} (hle : AtLeast h h') {models : List CatalogModel}
    {inventory : Nat → AppInventory} {m : Nat} (hnone : choiceLimit h models inventory m = none) :
    choiceLimit h' models inventory m = none := by
  rw [choiceLimit_none] at hnone ⊢
  obtain ⟨hsetup, hcores, hrate⟩ := hnone
  exact ⟨setupLimit_mono hle hsetup, hcores.imp_right fun hc => UInt32.le_trans hc hle.cores, hrate⟩

/-! ## The loop over the choices -/

/-- It ends with a choice that nothing stands against, if there is one. -/
theorem recommendFrom_eligible (limitOf : Nat → Option Limit) (preferred i : Nat)
    (choices : List Nat) (reason : Option Limit) :
    (recommendFrom limitOf preferred i choices reason).eligible = true ↔
      ∃ m ∈ choices, limitOf m = none := by
  induction choices generalizing i reason with
  | nil => simp [recommendFrom]
  | cons m choices ih =>
      rw [recommendFrom]
      cases hm : limitOf m with
      | none => exact ⟨fun _ => ⟨m, List.mem_cons_self, hm⟩, fun _ => rfl⟩
      | some limit =>
          rw [ih]
          constructor
          · rintro ⟨n, hn, hnone⟩
            exact ⟨n, List.mem_cons_of_mem _ hn, hnone⟩
          · rintro ⟨n, hn, hnone⟩
            rcases List.mem_cons.mp hn with rfl | hn
            · rw [hm] at hnone
              cases hnone
            · exact ⟨n, hn, hnone⟩

/-- The model that it ends with. -/
theorem recommendFrom_model {limitOf : Nat → Option Limit} {preferred i : Nat}
    {choices : List Nat} {reason : Option Limit}
    (he : (recommendFrom limitOf preferred i choices reason).eligible = true) :
    ∃ m, (recommendFrom limitOf preferred i choices reason).model = some m ∧ limitOf m = none := by
  induction choices generalizing i reason with
  | nil => cases he
  | cons m choices ih =>
      rw [recommendFrom] at he ⊢
      cases hm : limitOf m with
      | none => exact ⟨m, rfl, hm⟩
      | some limit =>
          rw [hm] at he
          exact ih he

/-- A reason that the first choice has left stays until a choice brings its own. -/
theorem recommendFrom_reason (limitOf : Nat → Option Limit) (preferred i : Nat)
    (choices : List Nat) {reason : Option Limit} (hr : i ≠ 0 → reason ≠ none)
    (hc : i = 0 → choices ≠ []) :
    ∃ text, (recommendFrom limitOf preferred i choices reason).reason = some text ∧ text ≠ "" := by
  induction choices generalizing i reason with
  | nil =>
      have hi : i ≠ 0 := fun hi => hc hi rfl
      obtain ⟨limit, hlimit⟩ := Option.ne_none_iff_exists'.mp (hr hi)
      refine ⟨limit.text, by rw [recommendFrom, hlimit, Option.map_some], ?_⟩
      cases limit <;> decide
  | cons m choices ih =>
      rw [recommendFrom]
      cases hm : limitOf m with
      | none =>
          refine ⟨_, rfl, ?_⟩
          split
          · decide
          · decide
      | some limit =>
          refine ih (i + 1) ?_ (fun hi => absurd hi (Nat.succ_ne_zero i))
          intro _
          split
          · exact Option.some_ne_none limit
          · next hi => exact hr hi

/-! ## The laws of a recommendation -/

theorem appModelFind_some {models : List CatalogModel} {id : CStr} {m : CatalogModel}
    (hm : m ∈ models) (hid : m.id = id) :
    ∃ i, appModelFind models (some id) = some i ∧ (models[i]?).map CatalogModel.id = some id := by
  have hsome : (models.findIdx? fun m => m.id == id).isSome := by
    rw [List.findIdx?_isSome]
    exact List.any_eq_true.mpr ⟨m, hm, beq_iff_eq.mpr hid⟩
  obtain ⟨i, hi⟩ := Option.isSome_iff_exists.mp hsome
  obtain ⟨hlt, heq, -⟩ := List.findIdx?_eq_some_iff_getElem.mp hi
  refine ⟨i, hi, ?_⟩
  rw [List.getElem?_eq_getElem hlt, Option.map_some, beq_iff_eq.mp heq]

theorem entryAt_inBounds {models : List CatalogModel} {gib : Nat}
    (hmodels : ∀ m ∈ models, m.InBounds gib) (i : Nat) : (entryAt models i).InBounds gib := by
  by_cases hi : i < models.length
  · rw [entryAt, List.getD_eq_getElem?_getD, List.getElem?_eq_getElem hi]
    exact hmodels _ (List.getElem_mem hi)
  · rw [entryAt, List.getD_eq_getElem?_getD, List.getElem?_eq_none (Nat.le_of_not_lt hi)]
    exact Nat.zero_le gib

/-- Behind the table there is nothing that could run. -/
theorem lt_length_of_passes {h : AppHardware} {models : List CatalogModel} {i : Nat}
    {inventory : AppInventory} {running : Bool}
    (hp : Passes h (entryAt models i) inventory running) : i < models.length := by
  by_contra hi
  have hbackends := hp.backends
  rw [entryAt, List.getD_eq_getElem?_getD, List.getElem?_eq_none (Nat.le_of_not_lt hi)] at hbackends
  exact hbackends rfl

/-- The recommended model is the selected one, and it is running. -/
def isLoaded (models : List CatalogModel) (selected running : Option CStr) (m : Nat) : Bool :=
  decide (appModelFind models selected = some m) && running == some (entryAt models m).id

/-- A selected model is kept, an eligible one passes the exact limits, more of everything keeps
a recommendation eligible, and there is always a reason. -/
structure RecommendationLaw (h : AppHardware) (models : List CatalogModel)
    (inventory : Nat → AppInventory) (selected running : Option CStr) : Prop where
  kept : ∀ id, selected = some id → (∃ m ∈ models, m.id = id) →
    ∃ i, (appRecommend h models inventory selected running).model = some i ∧
      (models[i]?).map CatalogModel.id = some id
  passes : (appRecommend h models inventory selected running).eligible = true →
    ∃ i, (appRecommend h models inventory selected running).model = some i ∧ i < models.length ∧
      Passes h (entryAt models i) (inventory i) (isLoaded models selected running i) ∧
      (appModelFind models selected = none → Suits h models inventory i)
  more : ∀ h', AtLeast h h' → (appRecommend h models inventory selected running).eligible = true →
    (appRecommend h' models inventory selected running).eligible = true
  reason : ∃ text, (appRecommend h models inventory selected running).reason = some text ∧ text ≠ ""

section

variable {h : AppHardware} {models : List CatalogModel} {inventory : Nat → AppInventory}
  {selected running : Option CStr}

theorem appRecommend_saved {i : Nat} (hs : appModelFind models selected = some i) :
    (appRecommend h models inventory selected running).model = some i ∧
    ((appRecommend h models inventory selected running).eligible = true ↔
      setupLimit h (entryAt models i) (inventory i)
        (isLoaded models selected running i) = none) ∧
    ∃ text, (appRecommend h models inventory selected running).reason = some text ∧ text ≠ "" := by
  have hloaded : isLoaded models selected running i = (running == some (entryAt models i).id) := by
    rw [isLoaded, decide_eq_true hs, Bool.true_and]
  rw [hloaded]
  simp only [appRecommend, hs]
  refine ⟨trivial, Option.isNone_iff_eq_none, _, rfl, ?_⟩
  cases setupLimit h (entryAt models i) (inventory i) (running == some (entryAt models i).id) with
  | none => decide
  | some limit => cases limit <;> decide

theorem appRecommend_unsaved (hs : appModelFind models selected = none) :
    appRecommend h models inventory selected running =
      recommendFrom (choiceLimit h models inventory) (preferredModel models h.device) 0
        [preferredModel models h.device, fallbackModel models] none := by
  simp only [appRecommend, hs]

theorem appRecommend_more {h' : AppHardware} (hle : AtLeast h h')
    (he : (appRecommend h models inventory selected running).eligible = true) :
    (appRecommend h' models inventory selected running).eligible = true := by
  cases hs : appModelFind models selected with
  | some i =>
      rw [(appRecommend_saved hs).2.1] at he ⊢
      exact setupLimit_mono hle he
  | none =>
      rw [appRecommend_unsaved hs, recommendFrom_eligible] at he ⊢
      obtain ⟨m, hm, hnone⟩ := he
      rw [hle.fields.1]
      exact ⟨m, hm, choiceLimit_mono hle hnone⟩

theorem appRecommend_passes {gib : Nat} (hgib : gib * 2 ^ 30 * 95 < 2 ^ 64)
    (hmodels : ∀ m ∈ models, m.InBounds gib)
    (he : (appRecommend h models inventory selected running).eligible = true) :
    ∃ i, (appRecommend h models inventory selected running).model = some i ∧
      Passes h (entryAt models i) (inventory i) (isLoaded models selected running i) ∧
      (appModelFind models selected = none → Suits h models inventory i) := by
  cases hs : appModelFind models selected with
  | some i =>
      obtain ⟨hmodel, heligible, -⟩ := @appRecommend_saved h models inventory selected running i hs
      exact ⟨i, hmodel, (setupLimit_none_iff hgib (entryAt_inBounds hmodels i)).mp (heligible.mp he),
        fun hno => nomatch hno⟩
  | none =>
      rw [appRecommend_unsaved hs] at he ⊢
      obtain ⟨i, hmodel, hnone⟩ := recommendFrom_model he
      obtain ⟨hsetup, hsuits⟩ := choiceLimit_none.mp hnone
      have hloaded : isLoaded models selected running i = false := by
        rw [isLoaded, hs]
        rfl
      refine ⟨i, hmodel, ?_, fun _ => hsuits⟩
      rw [hloaded]
      exact (setupLimit_none_iff hgib (entryAt_inBounds hmodels i)).mp hsetup

end

/-- The catalog bounds the total RAM of its entries by `gib`, and that bound is far below what
would wrap. -/
theorem appRecommend_lawful {models : List CatalogModel} {gib : Nat}
    (hgib : gib * 2 ^ 30 * 95 < 2 ^ 64) (hmodels : ∀ m ∈ models, m.InBounds gib) (h : AppHardware)
    (inventory : Nat → AppInventory) (selected running : Option CStr) :
    RecommendationLaw h models inventory selected running := by
  refine ⟨?_, ?_, fun h' hle he => appRecommend_more hle he, ?_⟩
  · rintro id rfl ⟨m, hm, hid⟩
    obtain ⟨i, hfind, hentry⟩ := appModelFind_some hm hid
    exact ⟨i, (appRecommend_saved hfind).1, hentry⟩
  · intro he
    obtain ⟨i, hmodel, hp, hsuits⟩ := appRecommend_passes hgib hmodels he
    exact ⟨i, hmodel, lt_length_of_passes hp, hp, hsuits⟩
  · cases hs : appModelFind models selected with
    | some i => exact (appRecommend_saved hs).2.2
    | none =>
        rw [appRecommend_unsaved hs]
        exact recommendFrom_reason _ _ 0 _ (fun hi => absurd rfl hi) (fun _ => List.cons_ne_nil _ _)

/-- A catalog of a large model and a small one. -/
def twoModels : List CatalogModel :=
  [{ id := lit "gemma4-e2b", bytes := 3000000000, workingMib := 4096, recommendedRamGib := 8, backends := 3 },
    { id := lit "smollm2-360m", bytes := 400000000, workingMib := 768, recommendedRamGib := 2, backends := 1 }]

/-- A computer with 16 GiB. -/
def sixteenGib : AppHardware :=
  { device := .appleSilicon, ram := 16 * APP_GIB, available := 8 * APP_GIB, disk := 20 * APP_GIB,
    cores := 8, supported := true, availableKnown := true, diskKnown := true }

theorem appRecommend_lawful_two :
    RecommendationLaw sixteenGib twoModels (fun _ => {}) (some (lit "smollm2-360m")) none :=
  appRecommend_lawful (show 1024 * 2 ^ 30 * 95 < 2 ^ 64 by decide)
    (by simp [twoModels, CatalogModel.InBounds]) sixteenGib (fun _ => {}) _ _

example : (appRecommend { sixteenGib with available := APP_GIB } twoModels (fun _ => {}) (some []) none) =
    { model := some 1, preferred := 0, source := "fallback",
      reason := some "A smaller model fits the available resources better.", eligible := true } := by
  decide +kernel

end GeistServe.App
