import Mathlib.Data.List.Induction
import GeistServe.Perf.View

/-!
# What the view of an artifact shows

The scan is three nested choices: the anchor is the first record that counts, a
processor's row are the records that go with the anchor, and its samples are the first
thirty of the row that are in the group of its first. Each is a filter of the store
with the newest in front, and the scan keeps all three for what it has read so far.
-/

namespace GeistServe.Proofs

open GeistServe.Geistd GeistServe.Perf

variable {artifact series cpu gpu : CStr}

/-- Eligible, not contended, and of this artifact and series. -/
def counts (artifact series : CStr) (r : PerfRecord) : Bool :=
  decide (r.artifact = artifact) && decide (r.series = series) && eligible r && !r.contention

/-- The mode of the anchor: ordinary, or the run of a comparison. -/
def sameMode (a r : PerfRecord) : Bool :=
  if controlled a then controlled r && decide (r.run = a.run) else !controlled r

def backendOf (cpu gpu : CStr) : Slot → CStr
  | .cpu => cpu
  | .gpu => gpu

/-- The record goes with the anchor, at this processor. -/
def goes (artifact series cpu gpu : CStr) (slot : Slot) (a r : PerfRecord) : Bool :=
  counts artifact series r && decide (r.backend = backendOf cpu gpu slot) &&
    decide (r.engine = a.engine) && sameMode a r

/-- The newest record that counts; `recs` has the newest in front. -/
def anchor (artifact series : CStr) (recs : List PerfRecord) : Option PerfRecord :=
  (recs.filter (counts artifact series)).head?

/-- The records of a processor that go with the anchor. -/
def row (artifact series cpu gpu : CStr) (slot : Slot) (recs : List PerfRecord) :
    List PerfRecord :=
  match anchor artifact series recs with
  | none => []
  | some a => recs.filter (goes artifact series cpu gpu slot a)

/-- The first thirty in the group of the first. -/
def shownOf : List PerfRecord → List PerfRecord
  | [] => []
  | h :: rest => ((h :: rest).filter fun r => decide (perfGroup r = perfGroup h)).take 30

/-! ## One processor -/

theorem take_concat {α : Type} (n : Nat) (l : List α) (x : α) :
    (l ++ [x]).take n = if (l.take n).length < n then l.take n ++ [x] else l.take n := by
  rw [List.length_take]
  split
  · next hlt =>
      have hlen : l.length < n := by omega
      rw [List.take_of_length_le (by simp; omega), List.take_of_length_le (by omega)]
  · next hge => rw [List.take_append_of_le_length (by omega)]

theorem shownOf_concat (h : PerfRecord) (rest : List PerfRecord) (r : PerfRecord) :
    shownOf (h :: rest ++ [r]) =
      if perfGroup r ≠ perfGroup h then shownOf (h :: rest)
      else if (shownOf (h :: rest)).length < 30 then shownOf (h :: rest) ++ [r]
      else shownOf (h :: rest) := by
  show ((h :: rest ++ [r]).filter _).take 30 = _
  rw [List.filter_append]
  split
  · next hgroup =>
      rw [List.filter_singleton, decide_eq_false hgroup, cond_false, List.append_nil]
      rfl
  · next hgroup =>
      rw [List.filter_singleton, decide_eq_true (not_not.mp hgroup), cond_true]
      exact take_concat 30 _ r

/-- What the scan keeps of the row of a processor. -/
structure AtSlot (v : View) (slot : Slot) (p : List PerfRecord) : Prop where
  ref : v.ref slot = p.head?.getD {}
  samples : v.samples slot = shownOf p

theorem AtSlot.place {v : View} {slot : Slot} {p : List PerfRecord} {r : PerfRecord}
    (h : AtSlot v slot p) (hid : ∀ x ∈ p ++ [r], x.id ≠ []) :
    AtSlot (v.place slot r) slot (p ++ [r]) := by
  obtain ⟨href, hsamples⟩ := h
  cases p with
  | nil =>
      have hempty : (v.ref slot).id = [] := by
        rw [href]
        rfl
      have hnone : v.samples slot = [] := hsamples
      simp only [View.place, if_pos hempty, Function.update_self, ne_eq, not_true_eq_false,
        if_false, hnone, List.length_nil, Nat.zero_lt_succ, if_true]
      refine ⟨Function.update_self .., (Function.update_self ..).trans ?_⟩
      rw [List.nil_append, shownOf, List.filter_singleton, decide_eq_true rfl]
      rfl
  | cons h₀ rest =>
      have href : v.ref slot = h₀ := href
      have hfull : ¬ (v.ref slot).id = [] := by
        rw [href]
        exact hid h₀ List.mem_cons_self
      simp only [View.place, if_neg hfull]
      rw [href, hsamples]
      split
      · next hgroup => exact ⟨href, by rw [shownOf_concat, if_pos hgroup, hsamples]⟩
      · next hgroup =>
          split
          · next hroom =>
              refine ⟨href, (Function.update_self ..).trans ?_⟩
              rw [shownOf_concat, if_neg hgroup, if_pos hroom]
          · next hroom =>
              exact ⟨href, by rw [shownOf_concat, if_neg hgroup, if_neg hroom, hsamples]⟩

/-- A record is placed at its own processor only. -/
theorem place_other {slot slot' : Slot} (hne : slot ≠ slot') (v : View) (r : PerfRecord) :
    (v.place slot' r).ref slot = v.ref slot ∧ (v.place slot' r).samples slot = v.samples slot := by
  have hupdate {β : Type} (f : Slot → β) (x : β) : Function.update f slot' x slot = f slot :=
    Function.update_of_ne hne _ _
  simp only [View.place]
  split_ifs <;> simp only [hupdate, and_self]

/-- Placing a record leaves the anchor. -/
theorem place_anchor (slot : Slot) (v : View) (r : PerfRecord) :
    (v.place slot r).decided = v.decided ∧ (v.place slot r).group = v.group ∧
      (v.place slot r).comparison = v.comparison ∧ (v.place slot r).run = v.run := by
  simp only [View.place]
  split_ifs <;> simp only [and_self]

/-! ## The scan -/

/-- What the scan knows of the records that it has read. -/
structure Scanned (artifact series cpu gpu : CStr) (l : List PerfRecord) (v : View) : Prop where
  open_ : anchor artifact series l = none → v.decided = false
  fixed : ∀ a, anchor artifact series l = some a →
    v.decided = true ∧ v.group = a ∧ v.comparison = controlled a ∧ v.run = fit 80 a.run
  placed : ∀ slot, AtSlot v slot (row artifact series cpu gpu slot l)

theorem anchor_concat (l : List PerfRecord) (r : PerfRecord) :
    anchor artifact series (l ++ [r]) =
      (anchor artifact series l).or (if counts artifact series r then some r else none) := by
  rw [anchor, List.filter_append, List.head?_append, List.filter_singleton]
  cases counts artifact series r <;> rfl

theorem goes_counts {slot : Slot} {a r : PerfRecord}
    (h : goes artifact series cpu gpu slot a r = true) : counts artifact series r = true := by
  simp only [goes, Bool.and_eq_true] at h
  exact h.1.1.1

/-- A record behind the anchor's joins the row if it goes with the anchor. -/
theorem row_concat {l : List PerfRecord} {r a : PerfRecord} (slot : Slot)
    (h : anchor artifact series (l ++ [r]) = some a) :
    row artifact series cpu gpu slot (l ++ [r]) =
      row artifact series cpu gpu slot l ++
        (if goes artifact series cpu gpu slot a r then [r] else []) := by
  have hlast : [r].filter (goes artifact series cpu gpu slot a) =
      if goes artifact series cpu gpu slot a r then [r] else [] := by
    rw [List.filter_singleton]
    cases goes artifact series cpu gpu slot a r <;> rfl
  rw [row, h]
  show (l ++ [r]).filter _ = _
  rw [List.filter_append, hlast]
  congr 1
  rw [anchor_concat] at h
  cases hl : anchor artifact series l with
  | some b =>
      rw [hl, Option.some_or] at h
      injection h with h
      rw [row, hl, h]
  | none =>
      rw [row, hl, List.filter_eq_nil_iff]
      intro x hx hgoes
      have hempty : l.filter (counts artifact series) = [] := List.head?_eq_none_iff.mp hl
      exact absurd (goes_counts hgoes) (List.filter_eq_nil_iff.mp hempty x hx)

theorem slotOf_eq (hne : cpu ≠ gpu) {r : PerfRecord} {slot : Slot} :
    slotOf cpu gpu r = some slot ↔ r.backend = backendOf cpu gpu slot := by
  unfold slotOf
  cases slot with
  | cpu =>
      show _ ↔ r.backend = cpu
      split
      · next h => exact iff_of_true rfl h
      · next h =>
          refine iff_of_false (fun hs => ?_) h
          split at hs <;> cases hs
  | gpu =>
      show _ ↔ r.backend = gpu
      split
      · next h => exact iff_of_false (fun hs => by cases hs) fun hg => hne (h.symm.trans hg)
      · split
        · next h => exact iff_of_true rfl h
        · next h => exact iff_of_false (fun hs => by cases hs) h

/-- A record that does not count is passed over. -/
theorem scan_skips (cpu gpu : CStr) (v : View) {r : PerfRecord} (h : counts artifact series r = false) :
    ∃ recent, v.scan artifact series cpu gpu r = { v with recent := recent } := by
  simp only [View.scan]
  split
  · exact ⟨v.recent, rfl⟩
  · next hartifact =>
      have hother : r.series ≠ series ∨ eligible r = false ∨ r.contention = true := by
        by_contra hno
        simp only [not_or, ne_eq, not_not, Bool.not_eq_false, Bool.not_eq_true] at hno hartifact
        simp only [counts, hno, hartifact, decide_true, Bool.not_false, Bool.and_self] at h
        cases h
      rw [if_pos hother]
      split
      · exact ⟨_, rfl⟩
      · exact ⟨v.recent, rfl⟩

/-- A record that counts is the anchor if there is none, and is placed if it goes with
the anchor. -/
theorem scan_counts (cpu gpu : CStr) (v : View) {r : PerfRecord} (h : counts artifact series r = true) :
    ∃ recent, v.scan artifact series cpu gpu r =
      let w := ({ v with recent := recent } : View).decide r
      if (if w.comparison then !controlled r || (r.run != w.run) else controlled r) = true then w
      else if r.engine ≠ w.group.engine then w
      else match slotOf cpu gpu r with
        | none => w
        | some slot => w.place slot r := by
  simp only [counts, Bool.and_eq_true, decide_eq_true_eq, Bool.not_eq_true'] at h
  obtain ⟨⟨⟨hartifact, hseries⟩, heligible⟩, hfree⟩ := h
  have hgood : ¬ (r.series ≠ series ∨ eligible r = false ∨ r.contention = true) := by
    simp only [hseries, heligible, hfree, ne_eq, not_true_eq_false, Bool.true_eq_false,
      Bool.false_eq_true, or_self, not_false_eq_true]
  refine ⟨if v.recent.length < 12 then v.recent ++ [r] else v.recent, ?_⟩
  have hrecent : (if v.recent.length < 12 then { v with recent := v.recent ++ [r] } else v) =
      { v with recent := if v.recent.length < 12 then v.recent ++ [r] else v.recent } := by
    split <;> rfl
  cases hslot : slotOf cpu gpu r <;>
    simp only [View.scan, if_neg (not_not.mpr hartifact), hrecent, if_neg hgood, hslot]

theorem Scanned.decide {l : List PerfRecord} {v : View} {r a : PerfRecord}
    (h : Scanned artifact series cpu gpu l v) (hcounts : counts artifact series r = true)
    (ha : anchor artifact series (l ++ [r]) = some a) (recent : List PerfRecord) :
    let w := ({ v with recent := recent } : View).decide r
    w.decided = true ∧ w.group = a ∧ w.comparison = controlled a ∧ w.run = fit 80 a.run ∧
      ∀ slot, AtSlot w slot (row artifact series cpu gpu slot l) := by
  intro w
  rw [anchor_concat, if_pos hcounts] at ha
  cases hl : anchor artifact series l with
  | none =>
      rw [hl, Option.none_or] at ha
      injection ha with ha
      have hw : w = { v with recent := recent, decided := true, comparison := controlled r
                             run := fit 80 r.run, group := r } := by
        show (if v.decided then _ else _ : View) = _
        rw [h.open_ hl]
        rfl
      rw [hw, ← ha]
      exact ⟨rfl, rfl, rfl, rfl, fun slot => ⟨(h.placed slot).ref, (h.placed slot).samples⟩⟩
  | some b =>
      rw [hl, Option.some_or] at ha
      injection ha with ha
      obtain ⟨hdecided, hgroup, hcomparison, hrun⟩ := h.fixed b hl
      have hw : w = { v with recent := recent } := by
        show (if v.decided then _ else _ : View) = _
        rw [hdecided]
        rfl
      rw [hw, ← ha]
      exact ⟨hdecided, hgroup, hcomparison, hrun,
        fun slot => ⟨(h.placed slot).ref, (h.placed slot).samples⟩⟩

theorem mode_eq {a : PerfRecord} (r : PerfRecord) (ha : a.run.length < 80) :
    (if controlled a then !controlled r || (r.run != fit 80 a.run) else controlled r) =
      !sameMode a r := by
  have hfit : fit 80 a.run = a.run := List.take_of_length_le (by omega)
  rw [hfit, sameMode]
  cases controlled a with
  | false => simp
  | true =>
      simp only [if_true, Bool.not_and]
      by_cases hrun : r.run = a.run
      · simp [hrun]
      · simp [hrun, bne]

/-- The records that the store can hold, as far as the scan depends on it. -/
structure Storable (r : PerfRecord) : Prop where
  id : r.id ≠ []
  run : r.run.length < 80

theorem anchor_mem {l : List PerfRecord} {a : PerfRecord}
    (h : anchor artifact series l = some a) : a ∈ l :=
  (List.mem_filter.mp (List.mem_of_mem_head? h)).1

theorem row_mem {slot : Slot} {l : List PerfRecord} {x : PerfRecord}
    (h : x ∈ row artifact series cpu gpu slot l) : x ∈ l := by
  unfold row at h
  split at h
  · cases h
  · exact (List.mem_filter.mp h).1

theorem Scanned.step {l : List PerfRecord} {v : View} {r : PerfRecord} (hne : cpu ≠ gpu)
    (h : Scanned artifact series cpu gpu l v) (hnamed : ∀ x ∈ l ++ [r], Storable x) :
    Scanned artifact series cpu gpu (l ++ [r]) (v.scan artifact series cpu gpu r) := by
  cases hcounts : counts artifact series r with
  | false =>
      obtain ⟨recent, hscan⟩ := scan_skips cpu gpu v hcounts
      have hanchor : anchor artifact series (l ++ [r]) = anchor artifact series l := by
        rw [anchor_concat, hcounts]
        exact Option.or_none
      have hrow (slot : Slot) : row artifact series cpu gpu slot (l ++ [r]) =
          row artifact series cpu gpu slot l := by
        cases hl : anchor artifact series l with
        | none => rw [row, row, hanchor, hl]
        | some a =>
            have hgoes : ¬ goes artifact series cpu gpu slot a r = true := fun hg => by
              rw [goes_counts hg] at hcounts
              cases hcounts
            rw [row_concat slot (hanchor.trans hl), if_neg hgoes, List.append_nil]
      rw [hscan]
      exact {
        open_ := fun hn => h.open_ (hanchor ▸ hn)
        fixed := fun a ha => h.fixed a (hanchor ▸ ha)
        placed := fun slot => by
          rw [hrow]
          exact ⟨(h.placed slot).ref, (h.placed slot).samples⟩ }
  | true =>
      obtain ⟨recent, hscan⟩ := scan_counts cpu gpu v hcounts
      obtain ⟨a, ha⟩ : ∃ a, anchor artifact series (l ++ [r]) = some a := by
        rw [anchor_concat, if_pos hcounts]
        cases anchor artifact series l with
        | none => exact ⟨r, rfl⟩
        | some b => exact ⟨b, rfl⟩
      obtain ⟨hdecided, hgroup, hcomparison, hrun, hplaced⟩ := h.decide hcounts ha recent
      have hmode := mode_eq r (hnamed a (anchor_mem ha)).run
      rw [hscan]
      simp only [hcomparison, hrun, hmode, hgroup]
      generalize ({ v with recent := recent } : View).decide r = w at *
      -- a record that does not go with the anchor is at no processor
      have hstays (hno : ∀ slot, goes artifact series cpu gpu slot a r = false) :
          Scanned artifact series cpu gpu (l ++ [r]) w := {
        open_ := fun hn => by
          rw [ha] at hn
          cases hn
        fixed := fun b hb => by
          rw [ha] at hb
          injection hb with hb
          exact hb ▸ ⟨hdecided, hgroup, hcomparison, hrun⟩
        placed := fun slot => by
          rw [row_concat slot ha, hno slot]
          exact (List.append_nil _).symm ▸ hplaced slot }
      split
      · next hother =>
          refine hstays fun slot => ?_
          have hother : sameMode a r = false := by simpa using hother
          rw [goes, hother, Bool.and_false]
      · next hsame =>
          split
          · next hengine =>
              refine hstays fun slot => ?_
              rw [goes, decide_eq_false hengine, Bool.and_false, Bool.false_and]
          · next hengine =>
              split
              · next hslot =>
                  refine hstays fun slot => ?_
                  have hbackend : ¬ r.backend = backendOf cpu gpu slot := fun hb => by
                    rw [(slotOf_eq hne).mpr hb] at hslot
                    cases hslot
                  rw [goes, decide_eq_false hbackend, Bool.and_false, Bool.false_and,
                    Bool.false_and]
              · next slot hslot =>
                  have hbackend := (slotOf_eq hne).mp hslot
                  have hgoes : goes artifact series cpu gpu slot a r = true := by
                    have hsame : sameMode a r = true := by simpa using hsame
                    rw [goes, hcounts, decide_eq_true hbackend,
                      decide_eq_true (not_not.mp hengine), hsame]
                    rfl
                  obtain ⟨hd, hg, hc, hr⟩ := place_anchor slot w r
                  exact {
                    open_ := fun hn => by
                      rw [ha] at hn
                      cases hn
                    fixed := fun b hb => by
                      rw [ha] at hb
                      injection hb with hb
                      rw [hd, hg, hc, hr]
                      exact hb ▸ ⟨hdecided, hgroup, hcomparison, hrun⟩
                    placed := fun slot' => by
                      by_cases heq : slot' = slot
                      · subst heq
                        rw [row_concat slot' ha, if_pos hgoes]
                        refine (hplaced slot').place fun x hx => ?_
                        rcases List.mem_append.mp hx with hx | hx
                        · exact (hnamed x (List.mem_append_left _ (row_mem hx))).id
                        · exact (hnamed x (List.mem_append_right _ hx)).id
                      · have hno : ¬ goes artifact series cpu gpu slot' a r = true := fun hg' => by
                          simp only [goes, Bool.and_eq_true, decide_eq_true_eq] at hg'
                          rw [(slotOf_eq hne).mpr hg'.1.1.2] at hslot
                          injection hslot with hslot
                          exact heq hslot
                        obtain ⟨href, hsamples⟩ := place_other heq w r
                        rw [row_concat slot' ha, if_neg hno, List.append_nil]
                        exact ⟨href.trans (hplaced slot').ref,
                          hsamples.trans (hplaced slot').samples⟩ }

theorem scanned (hne : cpu ≠ gpu) {l : List PerfRecord} (hnamed : ∀ x ∈ l, Storable x) :
    Scanned artifact series cpu gpu l (l.foldl (View.scan artifact series cpu gpu) {}) := by
  induction l using List.reverseRecOn with
  | nil =>
      exact {
        open_ := fun _ => rfl
        fixed := fun a ha => by cases ha
        placed := fun slot => ⟨rfl, rfl⟩ }
  | append_singleton l r ih =>
      rw [List.foldl_append]
      exact (ih fun x hx => hnamed x (List.mem_append_left _ hx)).step hne hnamed

/-! ## The samples -/

/-- The record has passed `valid`, as every record in the store has. -/
def Checked (r : PerfRecord) : Prop := r.Shaped ∧ ∃ now, r.valid now = true

theorem Checked.storable {r : PerfRecord} (h : Checked r) : Storable r := by
  obtain ⟨hshaped, now, hvalid⟩ := h
  refine ⟨fun hid => ?_, hshaped.run.1⟩
  have htoken : token 160 r.id = true := by
    simp only [PerfRecord.valid, Bool.and_eq_true] at hvalid
    tauto
  rw [hid] at htoken
  cases htoken

/-- A record that makes no difference to a processor while the anchor is ordinary with
the engine `e`: it does not count, or it is an ordinary one of the other processor. -/
def bystander (e : AppEngine) (other : CStr) (r : PerfRecord) : Bool :=
  !eligible r || r.contention ||
    (!controlled r && decide (r.backend = other) && decide (r.engine = e))

def otherSlot : Slot → Slot
  | .cpu => .gpu
  | .gpu => .cpu

theorem backendOf_ne (hne : cpu ≠ gpu) (slot : Slot) :
    backendOf cpu gpu slot ≠ backendOf cpu gpu (otherSlot slot) := by
  cases slot
  · exact hne
  · exact hne.symm

theorem goes_not_bystander (hne : cpu ≠ gpu) {slot : Slot} {a r : PerfRecord} {e : AppEngine}
    (h : goes artifact series cpu gpu slot a r = true) :
    bystander e (backendOf cpu gpu (otherSlot slot)) r = false := by
  simp only [goes, counts, Bool.and_eq_true, decide_eq_true_eq, Bool.not_eq_true'] at h
  obtain ⟨⟨⟨⟨⟨_, heligible⟩, hfree⟩, hbackend⟩, _⟩, _⟩ := h
  have hother : r.backend ≠ backendOf cpu gpu (otherSlot slot) := hbackend ▸ backendOf_ne hne slot
  rw [bystander, heligible, hfree, decide_eq_false hother, Bool.and_false, Bool.false_and]
  rfl

/-- Under an ordinary anchor the row is that of the records that are no bystanders. -/
theorem row_ordinary (hne : cpu ≠ gpu) (slot : Slot) {l : List PerfRecord} {a b : PerfRecord}
    {e : AppEngine} (ha : anchor artifact series l = some a) (hordinary : controlled a = false)
    (hengine : a.engine = e) (hb : controlled b = false) (hbengine : b.engine = e) :
    row artifact series cpu gpu slot l =
      (l.filter fun r => !bystander e (backendOf cpu gpu (otherSlot slot)) r).filter
        (goes artifact series cpu gpu slot b) := by
  have hgoes (r : PerfRecord) : goes artifact series cpu gpu slot a r =
      goes artifact series cpu gpu slot b r := by
    rw [goes, goes, sameMode, sameMode, hordinary, hb, hengine, hbengine]
    rfl
  rw [row, ha, List.filter_filter]
  refine List.filter_congr fun r _ => ?_
  rw [hgoes]
  cases hg : goes artifact series cpu gpu slot b r with
  | false => rfl
  | true =>
      rw [goes_not_bystander hne hg]
      rfl

/-- For every content of the store, the samples of a processor are the newest thirty of
its group, among the records that go with the newest one that counts. So records that do
not count, and ordinary ones of the other processor with the same engine, make no
difference to them while the anchor is ordinary with that engine. -/
theorem perf_view_selects (hne : cpu ≠ gpu) {recs : List PerfRecord}
    (hrecs : ∀ r ∈ recs, Checked r) (slot : Slot) :
    (perfView recs artifact series cpu gpu).samples slot =
      shownOf (row artifact series cpu gpu slot recs.reverse) ∧
    ∀ recs' e a a', (∀ r ∈ recs', Checked r) →
      recs.filter (fun r => !bystander e (backendOf cpu gpu (otherSlot slot)) r) =
        recs'.filter (fun r => !bystander e (backendOf cpu gpu (otherSlot slot)) r) →
      anchor artifact series recs.reverse = some a → controlled a = false → a.engine = e →
      anchor artifact series recs'.reverse = some a' → controlled a' = false → a'.engine = e →
      (perfView recs artifact series cpu gpu).samples slot =
        (perfView recs' artifact series cpu gpu).samples slot := by
  have hshown {l : List PerfRecord} (hl : ∀ r ∈ l, Checked r) :
      (perfView l artifact series cpu gpu).samples slot =
        shownOf (row artifact series cpu gpu slot l.reverse) := by
    have hnamed : ∀ r ∈ l.reverse, Storable r := fun r hr => (hl r (List.mem_reverse.mp hr)).storable
    exact ((scanned hne hnamed).placed slot).samples
  refine ⟨hshown hrecs, fun recs' e a a' hrecs' hsame ha hordinary hengine ha' hordinary' hengine' =>
    ?_⟩
  have hrow := row_ordinary hne slot ha hordinary hengine hordinary hengine
  have hrow' := row_ordinary hne slot ha' hordinary' hengine' hordinary hengine
  rw [List.filter_reverse] at hrow hrow'
  rw [hshown hrecs, hshown hrecs', hrow, hrow', hsame]

/-- A reply with the text of `performance_test.py`. -/
def reply (id backend : CStr) (cold contention : Bool) : PerfRecord where
  schema := 2
  memory := {}
  id := id
  artifact := lit "a"
  series := lit "s"
  backend := backend
  source := lit "app"
  outcome := lit "completed"
  finish := lit "stop"
  timestamp := .fin 1790000000
  generationNs := .fin 800000000
  firstNs := .fin 100000000
  totalNs := .fin 10000000000
  output := 64
  cold := cold
  contention := contention

/-- Replies on the one processor, a first one on the other, and one that overlapped a
download. -/
def replies : List PerfRecord :=
  [reply (lit "gpu-0") (lit "metal") false false, reply (lit "gpu-1") (lit "metal") false false,
    reply (lit "cpu-cold") (lit "cpu") true false, reply (lit "cpu-download") (lit "cpu") false true]

theorem replies_checked : ∀ r ∈ replies, Checked r := by
  have hall : ∀ r ∈ replies, r.Shaped ∧ r.valid 1790000000 = true := by decide +kernel
  exact fun r hr => ⟨(hall r hr).1, 1790000000, (hall r hr).2⟩

theorem perf_view_selects_replies :
    ((perfView replies (lit "a") (lit "s") (lit "cpu") (lit "metal")).samples .gpu).map
      PerfRecord.id = [lit "gpu-1", lit "gpu-0"] := by
  rw [(perf_view_selects (by decide) replies_checked .gpu).1]
  decide +kernel

end GeistServe.Proofs
