import Mathlib.Data.List.Nodup
import GeistServe.App.Catalog

/-!
# What imports keep, and what a status request ranks

An import is checked against the table it replaces. The data under a file name
outlives the entry it was stored for, so a name that one import drops may come back
in the next one for another model: `Named` is the condition that it does not.

The ranking of a status request is kept under the address of the text it was made
from. An address comes back when the block there is freed: `Unheld` is the condition
that it does not come back for another catalog while the ranking is kept under it.
-/

namespace GeistServe.Proofs

open GeistServe.Lib GeistServe.Catalog
open GeistServe.Supervisor (Model)

variable {ι ρ ν : Type} {rt : Runtime ι ρ ν}

/-! ## Imports -/

/-- The checks that an import has to pass, and the writing of catalog.json. -/
def admits (s : Library) (c : AppCatalog) (saves : Bool) : Bool :=
  !decide (s.compare ∨ s.job.isSome ∨ s.generating ∨ (s.pid ∧ s.ready = false)) &&
    decide (s.revision < c.revision) && !s.moves c && !s.reassigns c && saves

/-- An import is refused and changes nothing, or it passes its checks and its catalog is
in effect. -/
theorem importCatalog_cases (s : Library) (text : String) (address : Nat) (saves : Bool) :
    (∃ code, code ≠ 200 ∧ s.importCatalog rt text address saves = (s, code) ∧
      ∀ c, rt.appCatalogParse text = some c → admits s c saves = false) ∨
    ∃ c, rt.appCatalogParse text = some c ∧ admits s c saves = true ∧
      s.importCatalog rt text address saves = (s.apply c text address, 200) := by
  unfold Library.importCatalog admits
  cases rt.appCatalogParse text with
  | none => exact .inl ⟨400, by decide, rfl, fun c hc => by cases hc⟩
  | some candidate =>
      simp only
      split
      · next hbusy =>
          refine .inl ⟨409, by decide, rfl, fun c hc => ?_⟩
          cases hc
          simp only [decide_eq_true hbusy, Bool.not_true, Bool.false_and]
      · next hidle =>
          split
          · next hrevision =>
              refine .inl ⟨409, by decide, rfl, fun c hc => ?_⟩
              cases hc
              simp only [decide_eq_false (Nat.not_lt.mpr hrevision), Bool.and_false, Bool.false_and]
          · next hrevision =>
              split
              · next hmoves =>
                  refine .inl ⟨409, by decide, rfl, fun c hc => ?_⟩
                  cases hc
                  simp only [hmoves, Bool.not_true, Bool.and_false, Bool.false_and]
              · next hmoves =>
                  split
                  · next hreassigns =>
                      refine .inl ⟨409, by decide, rfl, fun c hc => ?_⟩
                      cases hc
                      simp only [hreassigns, Bool.not_true, Bool.and_false, Bool.false_and]
                  · next hreassigns =>
                      split
                      · next hsaves =>
                          refine .inl ⟨500, by decide, rfl, fun c hc => ?_⟩
                          simp only [hsaves, Bool.and_false]
                      · next hsaves =>
                          refine .inr ⟨candidate, rfl, ?_, rfl⟩
                          simp only [decide_eq_false hidle, decide_eq_true (Nat.not_le.mp hrevision),
                            Bool.eq_false_iff.mpr hmoves, Bool.eq_false_iff.mpr hreassigns,
                            eq_true_of_ne_false hsaves, Bool.not_false, Bool.and_self]

theorem admits_iff {s : Library} {c : AppCatalog} {saves : Bool} :
    admits s c saves = true ↔
      ¬ (s.compare = true ∨ s.job.isSome = true ∨ s.generating = true ∨
        (s.pid = true ∧ s.ready = false)) ∧
      s.revision < c.revision ∧ s.moves c = false ∧ s.reassigns c = false ∧ saves = true := by
  unfold admits
  simp only [Bool.and_eq_true, Bool.not_eq_true', decide_eq_false_iff_not, decide_eq_true_eq,
    and_assoc]

/-- The text of a catalog that is imported is read as that catalog. -/
theorem appCatalogParse_some {text : String} {c : AppCatalog}
    (h : rt.appCatalogParse text = some c) : rt.geistrCatalogParse text = some c := by
  unfold Runtime.appCatalogParse at h
  split at h
  · cases h
  · exact (Option.filter_eq_some_iff.mp h).1

/-- What an import leaves of a running model. -/
theorem moves_false {s : Library} {c : AppCatalog} {o : Model} (h : s.moves c = false)
    (hready : s.ready = true) (ho : findModel s.table s.activeId = some o) :
    ∃ n, findModel c.models s.activeId = some n ∧ n.sha256 = o.sha256 ∧ n.file = o.file ∧
      n.bytes = o.bytes ∧ n.backends = o.backends := by
  unfold Library.moves at h
  rw [hready, ho, Bool.true_and, Option.any_some] at h
  cases hn : findModel c.models s.activeId with
  | none =>
      rw [hn] at h
      cases h
  | some n =>
      rw [hn, Option.all_some] at h
      have hsame := of_decide_eq_false h
      simp only [not_or, not_not] at hsame
      exact ⟨n, rfl, hsame.1.symm, hsame.2.1.symm, hsame.2.2.2.symm, hsame.2.2.1.symm⟩

/-- An import that passes its checks keeps what its table says of the names with data. -/
theorem reassigns_false {s : Library} {c : AppCatalog} {previous replacement : Model}
    (h : s.reassigns c = false) (hp : previous ∈ s.table) (hr : replacement ∈ c.models)
    (hfile : previous.file = replacement.file) (hdata : (s.stored previous.file).present = true) :
    replacement.sha256 = previous.sha256 ∧ replacement.bytes = previous.bytes := by
  unfold Library.reassigns at h
  have hall := List.any_eq_false.mp (Bool.eq_false_iff.mpr fun hany =>
    List.any_eq_false.mp h previous hp hany) replacement hr
  rw [hdata, Bool.and_true, decide_eq_true_eq, not_and, not_or, not_not, not_not] at hall
  exact ⟨(hall hfile).1.symm, (hall hfile).2.symm⟩

/-- What an import does to the catalog: the revision grows with every one that is
accepted, one that is refused leaves the table and the saved catalog, and a running
model stays as it is. -/
theorem importCatalog_keeps (s : Library) (text : String) (address : Nat) (saves : Bool) :
    let r := s.importCatalog rt text address saves
    (r.2 = 200 → s.revision < r.1.revision) ∧
    (r.2 ≠ 200 → r.1.table = s.table ∧ r.1.saved = s.saved) ∧
    (s.ready = true → ∀ o, findModel s.table s.activeId = some o →
      ∃ n, findModel r.1.table s.activeId = some n ∧ n.sha256 = o.sha256 ∧ n.file = o.file ∧
        n.bytes = o.bytes ∧ n.backends = o.backends) := by
  rcases importCatalog_cases s text address saves with
    ⟨code, hcode, heq, _⟩ | ⟨c, _, hadmits, heq⟩
  · rw [heq]
    exact ⟨fun h => absurd h hcode, fun _ => ⟨rfl, rfl⟩, fun _ o ho => ⟨o, ho, rfl, rfl, rfl, rfl⟩⟩
  · obtain ⟨_, hrevision, hmoves, _⟩ := admits_iff.mp hadmits
    rw [heq]
    exact ⟨fun _ => hrevision, fun h => absurd rfl h, fun hready o ho =>
      moves_false hmoves hready ho⟩

/-! ## Documents -/

/-- The text of a catalog with one model, whose hash is a digit 64 times. -/
def document (revision name digit bytes : String) : String :=
  "\x7b\"schema\":1,\"revision\":" ++ revision ++ ",\"models\":[\x7b\"id\":\"" ++ name ++
    "\",\"name\":\"" ++ name ++ "\",\"file\":\"" ++ name ++
    ".gguf\",\"url\":\"https://huggingface.co/x/" ++ name ++ "/resolve/main/" ++ name ++
    ".gguf\",\"sha256\":\"" ++ String.join (List.replicate 64 digit) ++ "\",\"bytes\":" ++ bytes ++
    ",\"working_mib\":64,\"recommended_ram_gib\":1,\"backends\":[\"cpu\"]\x7d]\x7d"

/-- Three documents and what is read from them. The second drops the file of the first,
and the third has it again for another model. -/
def documents : List (String × AppCatalog) :=
  [(document "10" "a" "1" "4000", ⟨10, [⟨1, 11, 111, 4000, 1, false⟩]⟩),
   (document "11" "b" "2" "5000", ⟨11, [⟨2, 22, 222, 5000, 1, false⟩]⟩),
   (document "12" "a" "3" "6000", ⟨12, [⟨1, 33, 111, 6000, 1, false⟩]⟩)]

/-- A runtime that reads these documents and ranks a catalog by what fits in memory. -/
def reader : Runtime Nat (List Bool) Bool where
  geistrCatalogParse text := (documents.find? fun d => decide (d.1 = text)).map (·.2)
  geistrRank c ram := some (c.models.map fun m => decide (m.bytes ≤ ram))
  geistrRankingGet r i := r[i]?

theorem reader_files (text : String) (c : AppCatalog)
    (h : reader.geistrCatalogParse text = some c) : (c.models.map Model.file).Nodup := by
  obtain ⟨d, hd, rfl⟩ := Option.map_eq_some_iff.mp h
  have hall : ∀ d ∈ documents, (d.2.models.map Model.file).Nodup := by decide
  exact hall d (List.mem_of_find?_eq_some hd)

/-- The app with the first document as its saved catalog, and nothing stored. -/
def unstocked : Library where
  table := [⟨1, 11, 111, 4000, 1, false⟩]
  revision := 10
  json := some 1
  source := document "10" "a" "1" "4000"
  saved := some (document "10" "a" "1" "4000")
  stored _ := ⟨0, 0, (0, 0)⟩
  selected := none
  activeId := none
  pid := false
  ready := false
  compare := false
  generating := false
  job := none
  ranked := ⟨none⟩

theorem unstocked_initial : unstocked.Initial reader where
  source := by decide +kernel
  ranked := rfl
  job := rfl
  stored := by
    intro m _ hdata
    cases hdata

theorem unstocked_reach (ok : Library → Act Nat → Prop) :
    (libraryMachine reader).Reach ok unstocked :=
  .init (M := libraryMachine reader) unstocked_initial

/-! ## File names -/

/-- What holds of the names with data, of the names of the table and of the job. -/
structure Stocked (s : Library) : Prop where
  respected : s.Respected
  files : (s.table.map Model.file).Nodup
  job : ∀ j, s.job = some j → j.model ∈ s.table

/-- No catalog that is accepted gives a name with data to another hash or size, when no
entry of the table has that name any more. -/
def Named (rt : Runtime ι ρ ν) (s : Library) (act : Act ι) : Prop :=
  ∀ text address saves c, act = .importCatalog text address saves →
    rt.appCatalogParse text = some c → admits s c saves = true →
    ∀ m ∈ c.models, (s.stored m.file).present = true →
      (∃ previous ∈ s.table, previous.file = m.file) ∨
        (m.sha256, m.bytes) = (s.stored m.file).origin

/-- What a job stores is stored for an entry of the table. -/
theorem store_respected {s : Library} (h : Stocked s) {m : Model} (hm : m ∈ s.table)
    (complete partial_ : Nat) : (s.store m complete partial_).Respected := by
  intro m' hm' hdata
  have hm' : m' ∈ s.table := hm'
  unfold Library.store at hdata ⊢
  by_cases hfile : m'.file = m.file
  · obtain rfl := List.inj_on_of_nodup_map h.files hm' hm hfile
    simp only [Function.update_self]
  · simp only [Function.update_of_ne hfile] at hdata ⊢
    exact h.respected m' hm' hdata

theorem Stocked.store {s : Library} (h : Stocked s) {m : Model} (hm : m ∈ s.table)
    (complete partial_ : Nat) : Stocked (s.store m complete partial_) :=
  ⟨store_respected h hm complete partial_, h.files, h.job⟩

theorem Stocked.jobEnd {s : Library} (h : Stocked s) {j : Job} (hj : s.job = some j) (e : JobEnd) :
    Stocked (s.jobEnd j e) := by
  have hm := h.job j hj
  have hdone {s' : Library} (h' : Stocked s') : Stocked { s' with job := none } :=
    ⟨h'.respected, h'.files, fun j hj => by cases hj⟩
  unfold Library.jobEnd
  simp only
  refine hdone ?_
  split
  · split
    · exact h.store hm _ _
    · exact h
  · exact h.store hm _ _
  · exact h.store hm _ _
  · exact h

theorem Stocked.remove {s : Library} (h : Stocked s) (id : Nat) (complete partial_ : Bool) :
    Stocked (s.remove id complete partial_) := by
  unfold Library.remove
  split
  · next m _ =>
      split
      · exact h
      · refine ⟨fun m' hm' hdata => ?_, h.files, h.job⟩
        have hm' : m' ∈ s.table := hm'
        by_cases hfile : m'.file = m.file
        · simp only [hfile, Function.update_self] at hdata ⊢
          rw [← hfile]
          refine h.respected m' hm' ?_
          rw [hfile]
          simp only [Stored.present, decide_eq_true_eq] at hdata ⊢
          exact hdata.imp (fun hc hzero => hc (by rw [hzero]; split <;> rfl))
            fun hp hzero => hp (by rw [hzero]; split <;> rfl)
        · simp only [Function.update_of_ne hfile] at hdata ⊢
          exact h.respected m' hm' hdata
  · exact h

theorem Stocked.beginJob {s : Library} (h : Stocked s) (id : Nat) (download : Bool) :
    Stocked (s.beginJob id download) := by
  unfold Library.beginJob
  split
  · next m hm =>
      split
      · exact h
      · refine ⟨h.respected, h.files, fun j hj => ?_⟩
        cases hj
        exact List.mem_of_find?_eq_some hm
  · exact h

/-- An import that passes its checks keeps the names with data if and only if every
name that it brings back has the hash and the size of its data. -/
theorem apply_respected_iff {s : Library} (h : Stocked s) {c : AppCatalog} {saves : Bool}
    (hadmits : admits s c saves = true) (text : String) (address : Nat) :
    (s.apply c text address).Respected ↔
      ∀ m ∈ c.models, (s.stored m.file).present = true →
        (∃ previous ∈ s.table, previous.file = m.file) ∨
          (m.sha256, m.bytes) = (s.stored m.file).origin := by
  obtain ⟨_, _, _, hreassigns, _⟩ := admits_iff.mp hadmits
  refine ⟨fun hr m hm hdata => .inr (hr m hm hdata), fun hnamed m hm hdata => ?_⟩
  rcases hnamed m hm hdata with ⟨previous, hp, hfile⟩ | horigin
  · have hdata' : (s.stored previous.file).present = true := by
      rw [hfile]
      exact hdata
    obtain ⟨hsha, hbytes⟩ := reassigns_false hreassigns hp hm hfile hdata'
    have hold := h.respected previous hp hdata'
    rw [hfile] at hold
    rw [hsha, hbytes]
    exact hold
  · exact horigin

section Run

variable (hparse : ∀ text c, rt.geistrCatalogParse text = some c →
  (c.models.map Model.file).Nodup)

include hparse

theorem step_stocked {s s' : Library} {act : Act ι} (h : Stocked s) (hnamed : Named rt s act)
    (hstep : s.step rt act = some s') : Stocked s' := by
  cases act with
  | importCatalog text address saves =>
      simp only [Library.step] at hstep
      split at hstep
      · cases hstep
      · injection hstep with hstep
        subst hstep
        rcases importCatalog_cases s text address saves with
          ⟨code, _, heq, _⟩ | ⟨c, hc, hadmits, heq⟩
        · rw [heq]
          exact h
        · rw [heq]
          obtain ⟨hidle, _⟩ := admits_iff.mp hadmits
          refine ⟨(apply_respected_iff h hadmits text address).mpr
            (hnamed text address saves c rfl hc hadmits),
            hparse text c (appCatalogParse_some hc), fun j hj => ?_⟩
          have hj : s.job = some j := hj
          rw [hj] at hidle
          exact absurd (.inr (.inl rfl)) hidle
  | status input =>
      injection hstep with hstep
      subst hstep
      exact ⟨h.respected, h.files, h.job⟩
  | beginJob id download =>
      injection hstep with hstep
      subst hstep
      exact h.beginJob id download
  | receive size =>
      simp only [Library.step] at hstep
      split at hstep
      · next j hj =>
          split at hstep
          · injection hstep with hstep
            subst hstep
            exact h.store (h.job j hj) _ _
          · cases hstep
      · cases hstep
  | jobEnd e =>
      obtain ⟨j, hj, rfl⟩ := Option.map_eq_some_iff.mp hstep
      exact h.jobEnd hj e
  | remove id complete partial_ =>
      injection hstep with hstep
      subst hstep
      exact h.remove id complete partial_
  | loaded =>
      simp only [Library.step] at hstep
      split at hstep
      · injection hstep with hstep
        subst hstep
        exact ⟨h.respected, h.files, h.job⟩
      · cases hstep
  | load id | stop | infer running | comparison running =>
      injection hstep with hstep
      subst hstep
      exact ⟨h.respected, h.files, h.job⟩

theorem reach_stocked {s : Library} (h : (libraryMachine rt).Reach (Named rt) s) : Stocked s := by
  refine h.invariant (I := Stocked) (fun s hs => ?_) fun s act s' _ hok hstep hI =>
    step_stocked hparse hI hok hstep
  have hinit : s.Initial rt := hs
  refine ⟨hinit.stored, hparse s.source _ hinit.source, fun j hj => ?_⟩
  rw [hinit.job] at hj
  cases hj

/-- In every run in which no accepted catalog brings a name with data back for another
hash or size: every name with data stays with the entry that the data was stored for;
the revision grows with every import that is accepted, one that is refused leaves the
table and the saved catalog, and a running model stays as it is. -/
theorem imports_keep_files {s : Library} (h : (libraryMachine rt).Reach (Named rt) s) :
    s.Respected ∧ ∀ text address saves,
      let r := s.importCatalog rt text address saves
      (r.2 = 200 → s.revision < r.1.revision) ∧
      (r.2 ≠ 200 → r.1.table = s.table ∧ r.1.saved = s.saved) ∧
      (s.ready = true → ∀ o, findModel s.table s.activeId = some o →
        ∃ n, findModel r.1.table s.activeId = some n ∧ n.sha256 = o.sha256 ∧ n.file = o.file ∧
          n.bytes = o.bytes ∧ n.backends = o.backends) :=
  ⟨(reach_stocked hparse h).respected, importCatalog_keeps s⟩

end Run

instance (s : Library) : Decidable s.Respected :=
  inferInstanceAs (Decidable (∀ m ∈ s.table, (s.stored m.file).present = true →
    (m.sha256, m.bytes) = (s.stored m.file).origin))

/-- A condition on the imports that are accepted holds of every step that passes the
check of it. -/
def accepts (rt : Runtime ι ρ ν) (p : Library → AppCatalog → Nat → Bool) (s : Library) :
    Act ι → Bool
  | .importCatalog text address saves =>
      (rt.appCatalogParse text).all fun c => !admits s c saves || p s c address
  | _ => true

theorem of_accepts {p : Library → AppCatalog → Nat → Bool} {s : Library} {act : Act ι}
    (h : accepts rt p s act = true) {text : String} {address : Nat} {saves : Bool}
    {c : AppCatalog} (hact : act = .importCatalog text address saves)
    (hc : rt.appCatalogParse text = some c) (hadmits : admits s c saves = true) :
    p s c address = true := by
  subst hact
  rw [accepts, hc, Option.all_some, hadmits] at h
  exact h

/-- A download, and an import that drops its file. -/
def drops : List (Act Nat) :=
  [.beginJob 1 true, .receive 4000, .jobEnd .placed,
   .importCatalog (document "11" "b" "2" "5000") 2 true]

theorem imports_keep_files_dropped :
    ∃ s, (libraryMachine reader).Reach (Named reader) s ∧
      (s.revision = 11 ∧ (s.stored 111).complete = 4000) ∧ s.Respected := by
  let names (s : Library) (c : AppCatalog) (_ : Nat) : Bool :=
    c.models.all fun m => !(s.stored m.file).present
  have hnames (s : Library) (act : Act Nat) (h : accepts reader names s act = true) :
      Named reader s act := by
    intro text address saves c hact hc hadmits m hm hdata
    have hall := List.all_eq_true.mp (of_accepts h hact hc hadmits) m hm
    rw [hdata] at hall
    cases hall
  obtain ⟨s, hrun, hreach⟩ := Machine.checks_reach hnames drops (unstocked_reach _)
    (by decide +kernel)
  have hend : (((libraryMachine reader).run unstocked drops).any fun s =>
      decide (s.revision = 11 ∧ (s.stored 111).complete = 4000)) = true := by decide +kernel
  rw [hrun] at hend
  exact ⟨s, hreach, of_decide_eq_true hend, (imports_keep_files reader_files hreach).1⟩

/-- The name that an import drops comes back in the next one for another model, with the
data still there. -/
theorem imports_keep_files_fails :
    ∃ s, (libraryMachine reader).Reach Machine.free s ∧ ¬ s.Respected := by
  obtain ⟨s, hreach, hs⟩ := Machine.run_any (fun _ _ => trivial) (unstocked_reach _)
    (drops ++ [.importCatalog (document "12" "a" "3" "6000") 3 true])
    (fun s => decide (¬ s.Respected)) (by decide +kernel)
  exact ⟨s, hreach, of_decide_eq_true hs⟩

/-! ## The ranking of a status response -/

/-- The catalog in effect and what is kept of it stay. -/
structure Unchanged (s s' : Library) : Prop where
  table : s'.table = s.table
  revision : s'.revision = s.revision
  json : s'.json = s.json
  source : s'.source = s.source
  ranked : s'.ranked = s.ranked

theorem beginJob_unchanged (s : Library) (id : Nat) (download : Bool) :
    Unchanged s (s.beginJob id download) := by
  unfold Library.beginJob
  split
  · split <;> exact ⟨rfl, rfl, rfl, rfl, rfl⟩
  · exact ⟨rfl, rfl, rfl, rfl, rfl⟩

theorem jobEnd_unchanged (s : Library) (j : Job) (e : JobEnd) :
    Unchanged s (s.jobEnd j e) := by
  unfold Library.jobEnd
  simp only
  split
  · split <;> exact ⟨rfl, rfl, rfl, rfl, rfl⟩
  · exact ⟨rfl, rfl, rfl, rfl, rfl⟩
  · exact ⟨rfl, rfl, rfl, rfl, rfl⟩
  · exact ⟨rfl, rfl, rfl, rfl, rfl⟩

theorem remove_unchanged (s : Library) (id : Nat) (complete partial_ : Bool) :
    Unchanged s (s.remove id complete partial_) := by
  unfold Library.remove
  split
  · split <;> exact ⟨rfl, rfl, rfl, rfl, rfl⟩
  · exact ⟨rfl, rfl, rfl, rfl, rfl⟩

/-- Only imports and status requests touch the catalog in effect and what is kept of
it. -/
theorem step_unchanged {s s' : Library} {act : Act ι} (hstep : s.step rt act = some s') :
    (∃ text address saves, act = .importCatalog text address saves) ∨
      (∃ input, act = .status input) ∨ Unchanged s s' := by
  cases act with
  | importCatalog text address saves => exact .inl ⟨text, address, saves, rfl⟩
  | status input => exact .inr (.inl ⟨input, rfl⟩)
  | beginJob id download =>
      injection hstep with hstep
      subst hstep
      exact .inr (.inr (beginJob_unchanged s id download))
  | receive size =>
      simp only [Library.step] at hstep
      split at hstep
      · split at hstep
        · injection hstep with hstep
          subst hstep
          exact .inr (.inr ⟨rfl, rfl, rfl, rfl, rfl⟩)
        · cases hstep
      · cases hstep
  | jobEnd e =>
      obtain ⟨j, _, rfl⟩ := Option.map_eq_some_iff.mp hstep
      exact .inr (.inr (jobEnd_unchanged s j e))
  | remove id complete partial_ =>
      injection hstep with hstep
      subst hstep
      exact .inr (.inr (remove_unchanged s id complete partial_))
  | loaded =>
      simp only [Library.step] at hstep
      split at hstep
      · injection hstep with hstep
        subst hstep
        exact .inr (.inr ⟨rfl, rfl, rfl, rfl, rfl⟩)
      · cases hstep
  | load id | stop | infer running | comparison running =>
      injection hstep with hstep
      subst hstep
      exact .inr (.inr ⟨rfl, rfl, rfl, rfl, rfl⟩)

/-- The text in effect is read as the table, and what is kept under its address was
made from it. -/
structure Ranked (rt : Runtime ι ρ ν) (s : Library) : Prop where
  source : rt.geistrCatalogParse s.source = some ⟨s.revision, s.table⟩
  coherent : s.ranked.Coherent s.json (some ⟨s.revision, s.table⟩)

/-- No catalog that is accepted has the address under which the last one that was ranked
is kept. -/
def Unheld (rt : Runtime ι ρ ν) (s : Library) (act : Act ι) : Prop :=
  ∀ text address saves c, act = .importCatalog text address saves →
    rt.appCatalogParse text = some c → admits s c saves = true →
    ∀ kept, s.ranked.entry ≠ some (some address, kept)

theorem Ranked.parsed {s : Library} (h : Ranked rt s) :
    s.parsed rt = some ⟨s.revision, s.table⟩ := by
  unfold Library.parsed
  rw [h.source]
  exact Option.filter_eq_some_iff.mpr ⟨rfl, decide_eq_true rfl⟩

theorem Ranked.unchanged {s s' : Library} (h : Ranked rt s) (hu : Unchanged s s') :
    Ranked rt s' := by
  constructor
  · rw [hu.source, hu.revision, hu.table]
    exact h.source
  · rw [hu.ranked, hu.json, hu.revision, hu.table]
    exact h.coherent

theorem step_ranked {s s' : Library} {act : Act ι} (h : Ranked rt s) (hunheld : Unheld rt s act)
    (hstep : s.step rt act = some s') : Ranked rt s' := by
  rcases step_unchanged hstep with ⟨text, address, saves, rfl⟩ | ⟨input, rfl⟩ | hu
  · simp only [Library.step] at hstep
    split at hstep
    · cases hstep
    · injection hstep with hstep
      subst hstep
      rcases importCatalog_cases s text address saves with
        ⟨code, _, heq, _⟩ | ⟨c, hc, hadmits, heq⟩
      · rw [heq]
        exact h
      · rw [heq]
        exact ⟨appCatalogParse_some hc,
          Memo.coherent_fresh (hunheld text address saves c rfl hc hadmits) _⟩
  · injection hstep with hstep
    subst hstep
    refine ⟨h.source, ?_⟩
    show ((s.ranked.get s.json (s.parsed rt)).1).Coherent s.json _
    rw [h.parsed]
    exact Memo.get_coherent h.coherent
  · exact h.unchanged hu

theorem reach_ranked {s : Library} (h : (libraryMachine rt).Reach (Unheld rt) s) :
    Ranked rt s := by
  refine h.invariant (I := Ranked rt) (fun s hs => ?_) fun s act s' _ hok hstep hI =>
    step_ranked hI hok hstep
  have hinit : s.Initial rt := hs
  refine ⟨hinit.source, fun b hb => ?_⟩
  rw [hinit.ranked] at hb
  cases hb

/-- What a status response holds when the catalog in effect is the one it ranks. -/
theorem Ranked.response {s : Library} (h : Ranked rt s) (input : ι) :
    (s.statusResponse rt input).2 = s.respond rt (some ⟨s.revision, s.table⟩) input := by
  show s.respond rt (s.ranked.get s.json (s.parsed rt)).2 input = _
  rw [h.parsed, Memo.get_snd h.coherent]

/-- In every run in which no accepted catalog takes the address under which a ranking is
kept, every status response ranks the catalog in effect. -/
theorem status_ranks_catalog {s : Library} (h : (libraryMachine rt).Reach (Unheld rt) s)
    (input : ι) :
    let r := (s.statusResponse rt input).2
    let ranking := rt.geistrRank ⟨s.revision, s.table⟩ input
    r.ranking = ranking ∧
      r.verdicts = (List.range s.table.length).map fun i =>
        ranking.bind (rt.geistrRankingGet · i) := by
  rw [(reach_ranked h).response input]
  exact ⟨rfl, rfl⟩

theorem status_ranks_catalog_imported :
    ∃ s, (libraryMachine reader).Reach (Unheld reader) s ∧ s.revision = 11 ∧
      (s.statusResponse reader 5000).2.ranking = reader.geistrRank ⟨s.revision, s.table⟩ 5000 := by
  let free (s : Library) (_ : AppCatalog) (address : Nat) : Bool :=
    s.ranked.entry.all fun e => decide (e.1 ≠ some address)
  have hfree (s : Library) (act : Act Nat) (h : accepts reader free s act = true) :
      Unheld reader s act := by
    intro text address saves c hact hc hadmits kept hentry
    have hall := of_accepts h hact hc hadmits
    simp only [free, hentry, Option.all_some, ne_eq, not_true_eq_false, decide_false] at hall
    cases hall
  obtain ⟨s, hrun, hreach⟩ := Machine.checks_reach hfree
    [.status 5000, .importCatalog (document "11" "b" "2" "5000") 2 true]
    (unstocked_reach _) (by decide +kernel)
  have hend : (((libraryMachine reader).run unstocked
      [.status 5000, .importCatalog (document "11" "b" "2" "5000") 2 true]).any fun s =>
      decide (s.revision = 11)) = true := by decide +kernel
  rw [hrun] at hend
  exact ⟨s, hreach, of_decide_eq_true hend, (status_ranks_catalog hreach 5000).1⟩

/-- The second of two imports without a status request between them is given the address
of the catalog that was ranked last. -/
theorem status_ranks_catalog_fails :
    ∃ s, (libraryMachine reader).Reach Machine.free s ∧
      (s.statusResponse reader 5000).2.ranking ≠
        reader.geistrRank ⟨s.revision, s.table⟩ 5000 := by
  obtain ⟨s, hreach, hs⟩ := Machine.run_any (fun _ _ => trivial) (unstocked_reach _)
    [.status 5000, .importCatalog (document "11" "b" "2" "5000") 2 true,
     .importCatalog (document "12" "a" "3" "6000") 1 true]
    (fun s => decide ((s.statusResponse reader 5000).2.ranking ≠
      reader.geistrRank ⟨s.revision, s.table⟩ 5000)) (by decide +kernel)
  exact ⟨s, hreach, of_decide_eq_true hs⟩

end GeistServe.Proofs
