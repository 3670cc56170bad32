import GeistServe.Perf.Writer
import GeistServe.Proofs.Compaction

/-!
# What the writer does with every record, and what a clear stops

Over every order of the sections, the records that entered the queue since the last clear are
those the writer is through with, the one it has, and those that wait, in the order they came
(`records_accounted`). A clear is a fence: nothing that was begun before it is in memory, in the
queue or with the writer, and if it returned true, no byte of it is in a segment
(`clear_fences`). Behind `perf_close` the writer empties the queue and ends (`close_drains`).
-/

namespace GeistServe.Proofs

open GeistServe.Lib GeistServe.Perf

variable {C : Codec}

/-! ## Accounts -/

/-- The entry that the writer has taken out of the queue. -/
def flight : Phase C → List C.Rec
  | .append r => [r]
  | .count r _ => [r]
  | .copy (.count r) => [r]
  | .replace (.count r) _ => [r]
  | _ => []

/-- The accounts of the history. -/
structure Accounts (s : Ledger C) : Prop where
  order : s.sent = s.written.map Prod.fst ++ flight s.phase ++ s.p.queue
  persisted : s.p.persisted = s.loaded + s.written.countP (·.2)
  dropped : s.p.dropped = s.spilled + s.written.countP (!·.2)
  room : s.p.queue.length ≤ PERF_QUEUE
  started : s.p.started = true
  busy : s.writer = .busy ↔ s.phase.writers = true
  ended : s.writer = .ended → s.closing = true ∧ s.p.queue = []

theorem flight_free {ph : Phase C} (h : ph.isFree = true) : flight ph = [] := by
  cases ph with
  | free => rfl
  | _ => cases h

theorem writers_free {ph : Phase C} (h : ph.isFree = true) : ph.writers = false := by
  cases ph with
  | free => rfl
  | _ => cases h

/-- A holder that is not the writer has no entry. -/
theorem flight_others {ph : Phase C} (h : ph.writers = false) : flight ph = [] := by
  cases ph with
  | append | count => cases h
  | free | settings | unlink | clear => rfl
  | copy next | replace next =>
      cases next with
      | count | nothing => cases h
      | settings => rfl

theorem submit_service (p : Service C) (now : Int) (e : Entry C) (h : p.accepts now e = true) :
    p.submit now e =
      if p.started && decide (p.queue.length < PERF_QUEUE) then
        { p with st := retain now p.days p.st e.record, queue := p.queue ++ [e.record] }
      else { p with st := retain now p.days p.st e.record, dropped := p.dropped + 1 } := by
  rw [Service.submit, if_pos h]

theorem submit_accounts {s : Ledger C} (h : Accounts s) (t : Ticket) (r : C.Rec)
    (hopen : s.closing = false) : Accounts (s.submit t r) := by
  rw [Ledger.submit]
  dsimp only
  split
  · next haccept =>
      rw [submit_service _ _ _ haccept]
      by_cases hqueued : (s.p.started && decide (s.p.queue.length < PERF_QUEUE)) = true
      · rw [if_pos hqueued, if_pos hqueued, if_pos hqueued]
        refine { h with order := ?_, room := ?_, ended := ?_ }
        · show s.sent ++ [r] = _ ++ (s.p.queue ++ [r])
          rw [h.order, List.append_assoc]
        · show (s.p.queue ++ [r]).length ≤ PERF_QUEUE
          rw [List.length_append]
          exact of_decide_eq_true (Bool.and_eq_true _ _ ▸ hqueued).2
        · intro he
          rw [(h.ended he).1] at hopen
          cases hopen
      · rw [if_neg hqueued, if_neg hqueued, if_neg hqueued]
        refine { h with dropped := ?_ }
        show s.p.dropped + 1 = s.spilled + 1 + s.written.countP (!·.2)
        rw [h.dropped]
        omega
  · exact h

theorem take_accounts {s : Ledger C} (h : Accounts s) (due : Bool) (hfree : s.phase.isFree = true) :
    Accounts (s.take due) := by
  have hflight := flight_free hfree
  rw [Ledger.take]
  split
  · next r rest hqueue =>
      refine { h with order := ?_, room := ?_, busy := ?_, ended := ?_ }
      · show s.sent = _ ++ [r] ++ rest
        rw [h.order, hflight, hqueue, List.append_nil, List.append_assoc]
        rfl
      · have hroom := h.room
        rw [hqueue, List.length_cons] at hroom
        exact Nat.le_of_succ_le hroom
      · exact ⟨fun _ => rfl, fun _ => rfl⟩
      · intro he
        cases he
  · next hqueue =>
      split
      · refine { h with order := ?_, busy := ?_, ended := ?_ }
        · show s.sent = _ ++ [] ++ s.p.queue
          rw [h.order, hflight]
        · exact ⟨fun _ => rfl, fun _ => rfl⟩
        · intro he
          cases he
      · refine { h with busy := ?_, ended := ?_ }
        · exact ⟨fun hw => (by cases hw), fun hw => by
            rw [writers_free hfree] at hw
            cases hw⟩
        · intro he
          cases he

/-- A compaction keeps the accounts of what it is part of. -/
theorem resume_accounts {s : Ledger C} {next : After C} (h : Accounts s)
    (hphase : s.phase = .copy next ∨ ∃ recs, s.phase = .replace next recs) :
    Accounts (s.resume next) := by
  have hflight : flight s.phase = flight (Phase.copy next) := by
    rcases hphase with hp | ⟨recs, hp⟩
    · rw [hp]
    · rw [hp]
      cases next with
      | _ => rfl
  have hwriters : s.phase.writers = (Phase.copy next : Phase C).writers := by
    rcases hphase with hp | ⟨recs, hp⟩
    · rw [hp]
    · rw [hp]
      cases next with
      | _ => rfl
  have horder := h.order
  have hbusy := h.busy
  rw [hflight] at horder
  rw [hwriters] at hbusy
  cases next with
  | count r => exact { h with order := horder, busy := hbusy }
  | nothing =>
      refine { h with order := horder, busy := ?_, ended := ?_ }
      · exact ⟨fun hw => (by cases hw), fun hw => (by cases hw)⟩
      · intro he
        cases he
  | settings => exact { h with order := horder, busy := hbusy }

theorem settings_counts (p : Service C) (enabled : Bool) (days : Nat) (stored : Bool) :
    (p.settings enabled days stored).queue = p.queue ∧
      (p.settings enabled days stored).persisted = p.persisted ∧
      (p.settings enabled days stored).dropped = p.dropped ∧
      (p.settings enabled days stored).started = p.started := by
  rw [Service.settings]
  split
  · exact ⟨rfl, rfl, rfl, rfl⟩
  · exact ⟨rfl, rfl, rfl, rfl⟩

theorem proceed_accounts {s s' : Ledger C} {w : World} (h : Accounts s)
    (hstep : s.proceed w = some s') : Accounts s' := by
  rw [Ledger.proceed] at hstep
  have horder := h.order
  have hbusy := h.busy
  split at hstep
  · cases hstep
  · next r hphase =>
      rw [hphase] at horder hbusy
      cases hstep
      refine { h with order := ?_, busy := ?_ }
      · show s.sent = _ ++ flight (if _ then Phase.copy (.count r) else .count r _) ++ _
        split
        · exact horder
        · exact horder
      · show _ ↔ (if _ then Phase.copy (.count r) else Phase.count r _).writers = true
        split
        · exact hbusy
        · exact hbusy
  · next r stored hphase =>
      rw [hphase] at horder hbusy
      cases hstep
      cases stored with
      | true =>
          refine { h with order := ?_, persisted := ?_, dropped := ?_, busy := ?_, ended := ?_ }
          · show s.sent = (s.written ++ [(r, true)]).map Prod.fst ++ [] ++ s.p.queue
            rw [horder, List.map_append, List.append_nil]
            rfl
          · show s.p.persisted + 1 = s.loaded + (s.written ++ [(r, true)]).countP (·.2)
            rw [h.persisted, List.countP_append]
            rfl
          · show s.p.dropped = s.spilled + (s.written ++ [(r, true)]).countP (!·.2)
            rw [h.dropped, List.countP_append]
            rfl
          · exact ⟨fun hw => (by cases hw), fun hw => (by cases hw)⟩
          · intro he
            cases he
      | false =>
          refine { h with order := ?_, persisted := ?_, dropped := ?_, busy := ?_, ended := ?_ }
          · show s.sent = (s.written ++ [(r, false)]).map Prod.fst ++ [] ++ s.p.queue
            rw [horder, List.map_append, List.append_nil]
            rfl
          · show s.p.persisted = s.loaded + (s.written ++ [(r, false)]).countP (·.2)
            rw [h.persisted, List.countP_append]
            rfl
          · show s.p.dropped + 1 = s.spilled + (s.written ++ [(r, false)]).countP (!·.2)
            rw [h.dropped, List.countP_append]
            rfl
          · exact ⟨fun hw => (by cases hw), fun hw => (by cases hw)⟩
          · intro he
            cases he
  · next next hphase =>
      split at hstep
      · cases hstep
        rw [hphase] at horder hbusy
        refine { h with order := ?_, busy := ?_ }
        · refine horder.trans ?_
          cases next with
          | _ => rfl
        · refine hbusy.trans ?_
          cases next with
          | _ => rfl
      · cases hstep
        exact resume_accounts h (.inl hphase)
  · next next recs hphase =>
      cases hstep
      exact resume_accounts (s := { s with dir := _ }) { h with } (.inr ⟨recs, hphase⟩)
  · next enabled days stored hphase =>
      rw [hphase] at horder hbusy
      cases hstep
      obtain ⟨hqueue, hpersisted, hdropped, hstarted⟩ := settings_counts s.p enabled days stored
      refine { h with order := ?_, persisted := ?_, dropped := ?_, room := ?_, started := ?_,
                      busy := ?_, ended := ?_ }
      · show s.sent = _ ++ flight (if _ then Phase.copy .settings else .free) ++
          (s.p.settings enabled days stored).queue
        rw [hqueue]
        split
        · exact horder
        · exact horder
      · exact hpersisted.trans h.persisted
      · exact hdropped.trans h.dropped
      · exact hqueue ▸ h.room
      · exact hstarted.trans h.started
      · show _ ↔ (if _ then Phase.copy .settings else .free : Phase C).writers = true
        split
        · exact hbusy
        · exact hbusy
      · exact fun he => ⟨(h.ended he).1, hqueue.trans (h.ended he).2⟩
  · next stored hphase =>
      rw [hphase] at horder hbusy
      cases hstep
      exact { h with order := horder, busy := hbusy }
  · next ok hphase =>
      rw [hphase] at hbusy
      cases hstep
      exact
        { order := rfl
          persisted := rfl
          dropped := rfl
          room := Nat.zero_le _
          started := h.started
          busy := hbusy
          ended := fun he => ⟨(h.ended he).1, rfl⟩ }

theorem step_accounts {s s' : Ledger C} {d : Deed C} (h : Accounts s) (hstep : s.step d = some s') :
    Accounts s' := by
  cases d with
  | tick n =>
      cases hstep
      exact { h with }
  | begin =>
      rw [Ledger.step] at hstep
      split at hstep
      · cases hstep
      · cases hstep
        exact { h with }
  | adopt =>
      rw [Ledger.step] at hstep
      split at hstep
      · cases hstep
      · cases hstep
        exact { h with }
  | submit t r =>
      rw [Ledger.step] at hstep
      split at hstep
      · next hopen =>
          cases hstep
          exact submit_accounts h t r hopen.1
      · cases hstep
  | exports =>
      rw [Ledger.step] at hstep
      split at hstep
      · cases hstep
      · cases hstep
        exact { h with }
  | settings enabled days stored =>
      rw [Ledger.step] at hstep
      split at hstep
      · next hfree =>
          cases hstep
          refine { h with order := ?_, busy := ?_ }
          · rw [h.order, flight_free hfree.2.1]
            rfl
          · rw [h.busy, writers_free hfree.2.1]
            rfl
      · cases hstep
  | clear stored =>
      rw [Ledger.step] at hstep
      split at hstep
      · next hfree =>
          cases hstep
          refine { h with order := ?_, busy := ?_ }
          · rw [h.order, flight_free hfree.2]
            rfl
          · rw [h.busy, writers_free hfree.2]
            rfl
      · cases hstep
  | wake =>
      rw [Ledger.step] at hstep
      split at hstep
      · next hwaiting =>
          have hidle : s.phase.writers ≠ true := fun hw => by
            rw [h.busy.mpr hw] at hwaiting
            cases hwaiting
          split at hstep
          · next hend =>
              cases hstep
              exact { h with busy := ⟨fun hw => (by cases hw), fun hw => absurd hw hidle⟩
                             ended := fun _ => hend }
          · cases hstep
            exact { h with busy := ⟨fun hw => (by cases hw), fun hw => absurd hw hidle⟩
                           ended := fun he => (by cases he) }
      · cases hstep
  | take due =>
      rw [Ledger.step] at hstep
      split at hstep
      · next hfree =>
          cases hstep
          exact take_accounts h due hfree.2
      · cases hstep
  | proceed w => exact proceed_accounts h hstep
  | close =>
      rw [Ledger.step] at hstep
      split at hstep
      · cases hstep
        exact { h with ended := fun he => ⟨rfl, (h.ended he).2⟩ }
      · cases hstep

theorem initial_accounts {s : Ledger C} (h : (ledgerMachine C).init s) : Accounts s := by
  obtain ⟨hqueue, hstarted, hdropped, hloaded, _, hwriter, hphase, _, _, _, _, _, hsent, hwritten,
    hspilled⟩ := h
  exact
    { order := by rw [hsent, hwritten, hphase, hqueue]; rfl
      persisted := by rw [hloaded, hwritten]; rfl
      dropped := by rw [hdropped, hspilled, hwritten]; rfl
      room := by rw [hqueue]; exact Nat.zero_le _
      started := hstarted
      busy := by rw [hwriter, hphase]; exact ⟨fun hw => (by cases hw), fun hw => (by cases hw)⟩
      ended := by rw [hwriter]; exact fun he => (by cases he) }

theorem reach_accounts {s : Ledger C} (h : (ledgerMachine C).Reach Machine.free s) : Accounts s :=
  h.invariant (fun _ hi => initial_accounts hi) fun _ _ _ _ _ hstep hs => step_accounts hs hstep

/-- The records that entered the queue since the last clear are those the writer is through
with, the one it has and those that wait, in their order, and every record that was taken in is
counted once. -/
theorem records_accounted {s : Ledger C} (h : (ledgerMachine C).Reach Machine.free s) :
    s.sent = s.written.map Prod.fst ++ flight s.phase ++ s.p.queue ∧
      s.p.queue.length ≤ PERF_QUEUE ∧
      s.p.persisted = s.loaded + s.written.countP (·.2) ∧
      s.p.persisted + s.p.dropped + (flight s.phase).length + s.p.queue.length =
        s.loaded + s.spilled + s.sent.length := by
  have ha := reach_accounts h
  refine ⟨ha.order, ha.room, ha.persisted, ?_⟩
  have hall : s.written.length = s.written.countP (·.2) + s.written.countP (!·.2) := by
    have := List.length_eq_countP_add_countP (fun x : C.Rec × Bool => x.2) (l := s.written)
    simpa using this
  rw [ha.order, ha.persisted, ha.dropped, List.length_append, List.length_append,
    List.length_map, hall]
  omega

/-- A history without a record. -/
def emptyLedger (C : Codec) : Ledger C := { p := {}, dir := fun _ => none, now := 0 }

theorem emptyLedger_reach (C : Codec) : (ledgerMachine C).Reach Machine.free (emptyLedger C) :=
  .init ⟨rfl, rfl, rfl, rfl, rfl, rfl, rfl, rfl, rfl, rfl, rfl, rfl, rfl, rfl, rfl⟩

/-- Two records are submitted, and the writer takes the first. -/
def twoSubmits (a b : Fin 3) : List (Deed (unary 2)) :=
  [.begin, .submit ⟨true, 1, 0, 0⟩ a, .submit ⟨true, 1, 0, 0⟩ b, .wake, .take false]

/-- The first record is with the writer, and the second waits. -/
theorem records_accounted_two : ∃ s : Ledger (unary 2),
    (ledgerMachine (unary 2)).run (emptyLedger (unary 2)) (twoSubmits 1 2) = some s ∧
      s.sent = [(1 : Fin 3), (2 : Fin 3)] ∧ flight s.phase = [(1 : Fin 3)] ∧
      s.sent = s.written.map Prod.fst ++ flight s.phase ++ s.p.queue := by
  have hsome : ((ledgerMachine (unary 2)).run (emptyLedger (unary 2)) (twoSubmits 1 2)).isSome = true :=
    rfl
  obtain ⟨s, hrun⟩ := Option.isSome_iff_exists.mp hsome
  have hs := Machine.run_reach (fun _ _ => trivial) (emptyLedger_reach (unary 2)) hrun
  refine ⟨s, hrun, ?_, ?_, (records_accounted hs).1⟩
  · cases hrun
    rfl
  · cases hrun
    rfl

/-! ## What a segment is made of -/

/-- The bytes are starts of the lines of such records. -/
def Made (P : C.Rec → Prop) (bs : Bytes) : Prop :=
  ∃ ps : List (C.Rec × Nat), (∀ x ∈ ps, P x.1) ∧ bs = ps.flatMap fun x => (C.line x.1).take x.2

theorem made_nil {P : C.Rec → Prop} : Made P [] :=
  ⟨[], fun _ hx => absurd hx List.not_mem_nil, rfl⟩

theorem Made.append {P : C.Rec → Prop} {a b : Bytes} (ha : Made P a) (hb : Made P b) :
    Made P (a ++ b) := by
  obtain ⟨ps, hps, rfl⟩ := ha
  obtain ⟨qs, hqs, rfl⟩ := hb
  refine ⟨ps ++ qs, fun x hx => ?_, List.flatMap_append.symm⟩
  exact (List.mem_append.mp hx).elim (hps x) (hqs x)

theorem Made.mono {P Q : C.Rec → Prop} (hle : ∀ r, P r → Q r) {bs : Bytes} (h : Made P bs) :
    Made Q bs := by
  obtain ⟨ps, hps, rfl⟩ := h
  exact ⟨ps, fun x hx => hle _ (hps x hx), rfl⟩

theorem made_start {P : C.Rec → Prop} {r : C.Rec} (hr : P r) {p q : Bytes}
    (h : p ++ q = C.line r) : Made P p := by
  refine ⟨[(r, p.length)], fun x hx => ?_, ?_⟩
  · rw [List.mem_singleton.mp hx]
    exact hr
  · rw [List.flatMap_singleton, ← h, List.take_left]

theorem made_lines {P : C.Rec → Prop} {rs : List C.Rec} (h : ∀ r ∈ rs, P r) :
    Made P (lines C rs) := by
  induction rs with
  | nil => exact made_nil
  | cons r rs ih =>
      have hline : Made P (C.line r) :=
        made_start (h r List.mem_cons_self) (List.append_nil (C.line r))
      exact hline.append (ih fun x hx => h x (List.mem_cons_of_mem r hx))

/-- The two segments are made of such records. -/
def Segments (P : C.Rec → Prop) (d : Dir Name) : Prop :=
  Made P (contents d .current) ∧ Made P (contents d .previous)

theorem append_segments {P : C.Rec → Prop} {d : Dir Name} {r : C.Rec} (hr : P r)
    (h : Segments P d) (cut : Option Nat) : Segments P (append C d r cut).1 := by
  obtain ⟨p, q, hpq, -, -, happ⟩ := append_spec d r cut
  have hp := made_start hr hpq
  cases hrot : rotated C d r cut with
  | true =>
      obtain ⟨hprev, hcur⟩ := happ.moves hrot
      exact ⟨hcur ▸ hp, hprev ▸ h.1⟩
  | false =>
      obtain ⟨hprev, hcur, -⟩ := happ.stays hrot
      exact ⟨hcur ▸ h.1.append hp, hprev ▸ h.2⟩

/-- What of a compaction's two replacements is done. -/
theorem compacted_segments {P : C.Rec → Prop} {d d' : Dir Name} {a b : Bytes} {cut : Option Nat}
    (h : Compacted d d' a b cut) (ha : Made P a) (hb : Made P b) (hd : Segments P d) :
    Segments P d' := by
  cases h with
  | neither _ hprev hcur =>
      exact ⟨by rw [contents, hcur]; exact hd.1, by rw [contents, hprev]; exact hd.2⟩
  | first _ _ hprev hcur =>
      exact ⟨by rw [contents, hcur]; exact hd.1, by rw [contents, hprev]; exact ha⟩
  | both _ hprev hcur => exact ⟨by rw [contents, hcur]; exact hb, by rw [contents, hprev]; exact ha⟩

theorem replaceFiles_segments [LawfulCodec C] {P : C.Rec → Prop} {d : Dir Name}
    {recs : List C.Rec} (hrecs : ∀ r ∈ recs, P r) (hd : Segments P d) (w : World) :
    Segments P (replaceFiles d recs w) := by
  rw [replaceFiles]
  split
  · exact hd
  · next data hdata =>
      have hlines : data = lines C recs := by
        split at hdata
        · rw [exportData] at hdata
          split at hdata
          · exact (Option.some.inj hdata).symm
          · cases hdata
        · cases hdata
      subst hlines
      split
      · exact hd
      · have hold : Made P (lines C (older C recs)) :=
          made_lines fun r hr => hrecs r ((upTo_start _ _ _).subset hr)
        have hnew : Made P (lines C (newer C recs)) :=
          made_lines fun r hr => hrecs r (List.mem_of_mem_drop hr)
        have hdone := compacted_segments
          (perform_compact d (lines C (older C recs)) (lines C (newer C recs)) w.cut) hold hnew hd
        rw [compactOps, take_split, drop_split]
        dsimp only
        split
        · obtain ⟨hprev, hcur⟩ := cleaned_segments d (perform w.cut
            (replaceOps .previousTmp .previous (lines C (older C recs)) ++
              replaceOps .currentTmp .current (lines C (newer C recs))) d).1
          exact ⟨by rw [contents, hcur]; exact hdone.1, by rw [contents, hprev]; exact hdone.2⟩
        · exact hdone

/-! ## The fence -/

/-- The record was taken in with a ticket from behind the first `n` clears. -/
def Since (taken : List (Perf.Taken C)) (n : Nat) (r : C.Rec) : Prop :=
  ∃ a ∈ taken, a.record = r ∧ n ≤ a.ticket.clears

/-- What a clear and a change of the settings have stopped. -/
structure Fence (s : Ledger C) : Prop where
  tickets : ∀ t ∈ s.tickets, t.epoch ≤ s.p.epoch ∧
    (t.epoch = s.p.epoch → t.clears = s.clears ∧ t.changes = s.changes)
  taken : ∀ a ∈ s.taken,
    a.ticket.enabled = true ∧ a.ticket.clears = a.clears ∧ a.ticket.changes = a.changes
  memory : 0 < s.clears → ∀ r ∈ s.p.st.recs, Since s.taken s.clears r
  queue : ∀ r ∈ s.p.queue, Since s.taken s.clears r
  entry : ∀ r ∈ flight s.phase, Since s.taken s.clears r
  copy : ∀ next recs, s.phase = .replace next recs → 0 < s.clears →
    ∀ r ∈ recs, Since s.taken s.clears r
  scrubbed : s.scrubbed ≤ s.clears
  gone : s.phase = .clear true → ∀ n, n = .current ∨ n = .previous → contents s.dir n = []
  files : 0 < s.scrubbed → Segments (Since s.taken s.scrubbed) s.dir

theorem Since.mono {taken more : List (Perf.Taken C)} {n m : Nat} (hle : m ≤ n) {r : C.Rec}
    (h : Since taken n r) : Since (taken ++ more) m r := by
  obtain ⟨a, ha, hr, hn⟩ := h
  exact ⟨a, List.mem_append_left _ ha, hr, Nat.le_trans hle hn⟩

theorem Since.le {taken : List (Perf.Taken C)} {n m : Nat} (hle : m ≤ n) {r : C.Rec}
    (h : Since taken n r) : Since taken m r := by
  obtain ⟨a, ha, hr, hn⟩ := h
  exact ⟨a, ha, hr, Nat.le_trans hle hn⟩

theorem submit_fence {s : Ledger C} (h : Fence s) {t : Ticket} (r : C.Rec)
    (ht : t ∈ s.tickets) : Fence (s.submit t r) := by
  rw [Ledger.submit]
  dsimp only
  split
  · next haccept =>
      have hasked := haccept
      rw [Service.accepts] at hasked
      simp only [Bool.and_eq_true, decide_eq_true_eq] at hasked
      have hepoch : t.epoch = s.p.epoch := hasked.2.1.1.2
      obtain ⟨hclears, hchanges⟩ := (h.tickets t ht).2 hepoch
      have hold {x : C.Rec} {n : Nat} (hx : Since s.taken n x) :
          Since (s.taken ++ [⟨r, t, s.clears, s.changes⟩]) n x := hx.mono (Nat.le_refl n)
      have hnew : Since (s.taken ++ [⟨r, t, s.clears, s.changes⟩]) s.clears r :=
        ⟨⟨r, t, s.clears, s.changes⟩, List.mem_append_right _ (List.mem_singleton.mpr rfl), rfl,
          Nat.le_of_eq hclears.symm⟩
      have htaken : ∀ a ∈ s.taken ++ [⟨r, t, s.clears, s.changes⟩],
          a.ticket.enabled = true ∧ a.ticket.clears = a.clears ∧
            a.ticket.changes = a.changes := by
        intro a ha
        rcases List.mem_append.mp ha with ha | ha
        · exact h.taken a ha
        · rw [List.mem_singleton.mp ha]
          exact ⟨hasked.2.1.1.1.1, hclears, hchanges⟩
      have hmemory : 0 < s.clears → ∀ x ∈ (retain s.now s.p.days s.p.st r).recs,
          Since (s.taken ++ [⟨r, t, s.clears, s.changes⟩]) s.clears x := by
        intro hpos x hx
        rcases retain_recs hx with hx | rfl
        · exact hold (h.memory hpos x hx)
        · exact hnew
      rw [submit_service _ _ _ haccept]
      split
      · exact
          { h with
            tickets := h.tickets
            taken := htaken
            memory := hmemory
            queue := fun x hx => (List.mem_append.mp hx).elim (fun hx => hold (h.queue x hx))
              fun hx => by
                rw [List.mem_singleton.mp hx]
                exact hnew
            entry := fun x hx => hold (h.entry x hx)
            copy := fun next recs hp hpos x hx => hold (h.copy next recs hp hpos x hx)
            files := fun hpos => ⟨(h.files hpos).1.mono fun _ => hold,
              (h.files hpos).2.mono fun _ => hold⟩ }
      · exact
          { h with
            tickets := h.tickets
            taken := htaken
            memory := hmemory
            queue := fun x hx => hold (h.queue x hx)
            entry := fun x hx => hold (h.entry x hx)
            copy := fun next recs hp hpos x hx => hold (h.copy next recs hp hpos x hx)
            files := fun hpos => ⟨(h.files hpos).1.mono fun _ => hold,
              (h.files hpos).2.mono fun _ => hold⟩ }
  · exact h

theorem take_fence {s : Ledger C} (h : Fence s) (due : Bool) : Fence (s.take due) := by
  rw [Ledger.take]
  split
  · next r rest hqueue =>
      exact
        { h with
          queue := fun x hx => h.queue x (by rw [hqueue]; exact List.mem_cons_of_mem r hx)
          entry := fun x hx => h.queue x (by
            rw [hqueue, List.mem_singleton.mp hx]
            exact List.mem_cons_self)
          copy := fun _ _ hp => (by cases hp)
          gone := fun hp => (by cases hp) }
  · split
    · exact
        { h with
          entry := fun x hx => absurd hx List.not_mem_nil
          copy := fun _ _ hp => (by cases hp)
          gone := fun hp => (by cases hp) }
    · exact { h with }

theorem resume_fence {s : Ledger C} {next : After C} (h : Fence s)
    (hentry : ∀ r ∈ flight (Phase.copy next), Since s.taken s.clears r) :
    Fence (s.resume next) := by
  cases next with
  | count r =>
      exact { h with
        entry := hentry, copy := fun _ _ hp => (by cases hp), gone := fun hp => (by cases hp) }
  | nothing | settings =>
      exact { h with
        entry := hentry, copy := fun _ _ hp => (by cases hp), gone := fun hp => (by cases hp) }

theorem unlinked_contents (d : Dir Name) (w : World) (n : Name) :
    contents (unlinked d w) n = [] ∨ contents (unlinked d w) n = contents d n := by
  rw [contents, unlinked]
  split
  · exact .inl rfl
  · exact .inr rfl

theorem unlinked_segments {P : C.Rec → Prop} {d : Dir Name} (h : Segments P d) (w : World) :
    Segments P (unlinked d w) := by
  constructor
  · rcases unlinked_contents d w .current with he | he
    · exact he ▸ made_nil
    · exact he ▸ h.1
  · rcases unlinked_contents d w .previous with he | he
    · exact he ▸ made_nil
    · exact he ▸ h.2

/-- A change of the epoch puts every ticket behind. -/
theorem tickets_behind {tickets : List Ticket} {epoch clears changes : Nat} {P : Ticket → Prop}
    (h : ∀ t ∈ tickets, t.epoch ≤ epoch ∧ P t) :
    ∀ t ∈ tickets, t.epoch ≤ epoch + 1 ∧
      (t.epoch = epoch + 1 → t.clears = clears ∧ t.changes = changes) := by
  intro t ht
  have hle := (h t ht).1
  refine ⟨Nat.le_succ_of_le hle, fun he => ?_⟩
  omega

theorem settings_fence {s : Ledger C} (h : Fence s) (enabled : Bool) (days : Nat) (stored : Bool)
    (ph : Phase C) (hflight : flight ph = []) (hcopy : ∀ next recs, ph ≠ .replace next recs)
    (hgone : ph ≠ .clear true) :
    Fence { s with
      p := s.p.settings enabled days stored
      changes := if stored || !enabled then s.changes + 1 else s.changes
      phase := ph } := by
  rw [Service.settings]
  split
  · exact
      { h with
        tickets := tickets_behind h.tickets
        memory := h.memory
        queue := h.queue
        entry := fun x hx => by
          rw [hflight] at hx
          cases hx
        copy := fun next recs hp => absurd hp (hcopy next recs)
        gone := fun hp => absurd hp hgone }
  · exact
      { h with
        tickets := h.tickets
        entry := fun x hx => by
          rw [hflight] at hx
          cases hx
        copy := fun next recs hp => absurd hp (hcopy next recs)
        gone := fun hp => absurd hp hgone }

theorem proceed_fence [LawfulCodec C] {s s' : Ledger C} {w : World} (h : Fence s)
    (hstep : s.proceed w = some s') : Fence s' := by
  rw [Ledger.proceed] at hstep
  have hentry := h.entry
  split at hstep
  · cases hstep
  · next r hphase =>
      rw [hphase] at hentry
      cases hstep
      refine { h with entry := ?_, copy := ?_, gone := ?_, files := ?_ }
      · show ∀ x ∈ flight (if ((append C s.dir r w.cut).2 && w.due) = true
          then Phase.copy (.count r) else .count r (append C s.dir r w.cut).2),
            Since s.taken s.clears x
        split
        · exact hentry
        · exact hentry
      · intro next recs hp
        dsimp only at hp
        split at hp
        · cases hp
        · cases hp
      · intro hp
        dsimp only at hp
        split at hp
        · cases hp
        · cases hp
      · intro hpos
        have hr : Since s.taken s.scrubbed r :=
          (hentry r (List.mem_singleton.mpr rfl)).le h.scrubbed
        exact append_segments hr (h.files hpos) w.cut
  · next r stored hphase =>
      cases hstep
      cases stored with
      | true | false =>
          exact { h with
            entry := fun x hx => absurd hx List.not_mem_nil
            copy := fun _ _ hp => (by cases hp)
            gone := fun hp => (by cases hp) }
  · next next hphase =>
      rw [hphase] at hentry
      split at hstep
      · cases hstep
        refine { h with tickets := h.tickets, memory := ?_, queue := h.queue, entry := ?_,
                        copy := ?_, gone := fun hp => (by cases hp) }
        · exact fun hpos x hx => h.memory hpos x (List.mem_filter.mp hx).1
        · cases next with
          | count | nothing | settings => exact hentry
        · intro next' recs hp hpos x hx
          cases hp
          exact h.memory hpos x (List.mem_filter.mp hx).1
      · cases hstep
        exact resume_fence h hentry
  · next next recs hphase =>
      rw [hphase] at hentry
      cases hstep
      have hfiles : 0 < s.scrubbed →
          Segments (Since s.taken s.scrubbed) (replaceFiles s.dir recs w) := by
        intro hpos
        refine replaceFiles_segments (fun x hx => ?_) (h.files hpos) w
        exact (h.copy next recs hphase (Nat.lt_of_lt_of_le hpos h.scrubbed) x hx).le h.scrubbed
      refine resume_fence (s := { s with dir := _ }) { h with gone := ?_, files := hfiles } ?_
      · intro hp
        rw [hphase] at hp
        cases hp
      · intro x hx
        refine hentry x ?_
        cases next with
        | count | nothing | settings => exact hx
  · next enabled days stored hphase =>
      cases hstep
      cases stored with
      | true => exact settings_fence h enabled days true (.copy .settings) rfl nofun nofun
      | false => exact settings_fence h enabled days false .free rfl nofun nofun
  · next stored hphase =>
      cases hstep
      refine { h with entry := fun x hx => absurd hx List.not_mem_nil
                      copy := fun _ _ hp => (by cases hp), gone := ?_, files := ?_ }
      · intro hp n hn
        have hall : (stored && w.unlinks .current && w.unlinks .previous && w.others) = true := by
          injection hp
        simp only [Bool.and_eq_true] at hall
        have hgone : w.unlinks n = true := by
          rcases hn with rfl | rfl
          · exact hall.1.1.2
          · exact hall.1.2
        show contents (unlinked s.dir w) n = []
        rw [contents, unlinked, if_pos ⟨hn, hgone⟩]
        rfl
      · exact fun hpos => unlinked_segments (h.files hpos) w
  · next ok hphase =>
      cases hstep
      refine
        { h with
          tickets := tickets_behind h.tickets
          memory := fun _ x hx => absurd hx List.not_mem_nil
          queue := fun x hx => absurd hx List.not_mem_nil
          entry := fun x hx => absurd hx List.not_mem_nil
          copy := fun _ _ hp => (by cases hp)
          scrubbed := ?_
          gone := fun hp => (by cases hp)
          files := ?_ }
      · show (if ok = true then s.clears + 1 else s.scrubbed) ≤ s.clears + 1
        have hle := h.scrubbed
        split
        · exact Nat.le_refl _
        · omega
      · show 0 < (if ok = true then s.clears + 1 else s.scrubbed) →
          Segments (Since s.taken (if ok = true then s.clears + 1 else s.scrubbed)) s.dir
        cases ok with
        | true =>
            intro _
            exact ⟨h.gone hphase .current (.inl rfl) ▸ made_nil,
              h.gone hphase .previous (.inr rfl) ▸ made_nil⟩
        | false => exact h.files

theorem step_fence [LawfulCodec C] {s s' : Ledger C} {d : Deed C} (h : Fence s)
    (hstep : s.step d = some s') : Fence s' := by
  cases d with
  | tick n =>
      cases hstep
      exact { h with }
  | begin =>
      rw [Ledger.step] at hstep
      split at hstep
      · cases hstep
      · cases hstep
        refine { h with tickets := ?_ }
        intro t ht
        rcases List.mem_append.mp ht with ht | ht
        · exact h.tickets t ht
        · rw [List.mem_singleton.mp ht]
          exact ⟨Nat.le_refl _, fun _ => ⟨rfl, rfl⟩⟩
  | adopt =>
      rw [Ledger.step] at hstep
      split at hstep
      · cases hstep
      · cases hstep
        refine { h with tickets := ?_ }
        intro t ht
        rcases List.mem_append.mp ht with ht | ht
        · exact h.tickets t ht
        · rw [List.mem_singleton.mp ht]
          exact ⟨Nat.le_refl _, fun _ => ⟨rfl, rfl⟩⟩
  | submit t r =>
      rw [Ledger.step] at hstep
      split at hstep
      · next hopen =>
          cases hstep
          exact submit_fence h r hopen.2
      · cases hstep
  | exports =>
      rw [Ledger.step] at hstep
      split at hstep
      · cases hstep
      · cases hstep
        exact { h with
          tickets := h.tickets
          memory := fun hpos x hx => h.memory hpos x (List.mem_filter.mp hx).1 }
  | settings enabled days stored =>
      rw [Ledger.step] at hstep
      split at hstep
      · cases hstep
        exact { h with
          entry := fun x hx => absurd hx List.not_mem_nil
          copy := fun _ _ hp => (by cases hp)
          gone := fun hp => (by cases hp) }
      · cases hstep
  | clear stored =>
      rw [Ledger.step] at hstep
      split at hstep
      · cases hstep
        exact { h with
          entry := fun x hx => absurd hx List.not_mem_nil
          copy := fun _ _ hp => (by cases hp)
          gone := fun hp => (by cases hp) }
      · cases hstep
  | wake =>
      rw [Ledger.step] at hstep
      split at hstep
      · split at hstep
        · cases hstep
          exact { h with }
        · cases hstep
          exact { h with }
      · cases hstep
  | take due =>
      rw [Ledger.step] at hstep
      split at hstep
      · cases hstep
        exact take_fence h due
      · cases hstep
  | proceed w => exact proceed_fence h hstep
  | close =>
      rw [Ledger.step] at hstep
      split at hstep
      · cases hstep
        exact { h with }
      · cases hstep

theorem initial_fence {s : Ledger C} (h : (ledgerMachine C).init s) : Fence s := by
  obtain ⟨hqueue, _, _, _, _, _, hphase, htickets, hclears, _, hscrubbed, htaken, _, _, _⟩ := h
  exact
    { tickets := by rw [htickets]; exact fun _ ht => absurd ht List.not_mem_nil
      taken := by rw [htaken]; exact fun _ ha => absurd ha List.not_mem_nil
      memory := fun hpos => by rw [hclears] at hpos; exact absurd hpos (Nat.lt_irrefl 0)
      queue := by rw [hqueue]; exact fun _ hr => absurd hr List.not_mem_nil
      entry := by rw [hphase]; exact fun _ hr => absurd hr List.not_mem_nil
      copy := fun _ _ hp => by rw [hphase] at hp; cases hp
      scrubbed := by rw [hscrubbed]; exact Nat.zero_le _
      gone := fun hp => by rw [hphase] at hp; cases hp
      files := fun hpos => by rw [hscrubbed] at hpos; exact absurd hpos (Nat.lt_irrefl 0) }

theorem reach_fence [LawfulCodec C] {s : Ledger C} (h : (ledgerMachine C).Reach Machine.free s) :
    Fence s :=
  h.invariant (fun _ hi => initial_fence hi) fun _ _ _ _ _ hstep hs => step_fence hs hstep

/-- A record from before a clear, the clear and a record from behind it. -/
def clearBetween (a b : Fin 3) : List (Deed (unary 2)) :=
  [.begin, .submit ⟨true, 1, 0, 0⟩ a, .wake, .take false, .proceed {}, .proceed {},
    .clear true, .proceed {}, .proceed {}, .begin, .submit ⟨true, 1, 0, 0⟩ a,
    .submit ⟨true, 2, 1, 0⟩ b, .wake, .take false, .proceed {}]

def isTick : Deed C → Bool
  | .tick _ => true
  | _ => false

/-- The sections from a wait with such a queue, at most. -/
def backlog (n : Nat) : Nat := if n = 0 then 1 else 6 * n + 5

/-- The sections of the writer until it lets the disk lock go. -/
def sectionsLeft : Phase C → Nat
  | .append _ => 4
  | .copy (.count _) => 3
  | .replace (.count _) _ => 2
  | .count _ _ => 1
  | .copy .nothing => 2
  | .replace .nothing _ => 1
  | _ => 0

/-- The sections that are left to the writer of a history that is closed. -/
def work (s : Ledger C) : Nat :=
  if s.writer = .ended then 0
  else if s.writer = .waiting then backlog s.p.queue.length
  else if s.writer = .going then 6 * s.p.queue.length + 4
  else backlog s.p.queue.length + sectionsLeft s.phase

theorem work_waiting {s : Ledger C} (h : s.writer = .waiting) :
    work s = backlog s.p.queue.length := by
  rw [work, h]
  rfl

theorem work_going {s : Ledger C} (h : s.writer = .going) :
    work s = 6 * s.p.queue.length + 4 := by
  rw [work, h]
  rfl

theorem work_busy {s : Ledger C} (h : s.writer = .busy) :
    work s = backlog s.p.queue.length + sectionsLeft s.phase := by
  rw [work, h]
  rfl

/-- The disk lock is free or the writer's. -/
def Alone (s : Ledger C) : Prop := s.phase.isFree = true ∨ s.phase.writers = true

theorem take_work {s : Ledger C} (hgoing : s.writer = .going) (hfree : s.phase.isFree = true)
    (due : Bool) : work (s.take due) < work s ∧ (s.take due).closing = s.closing ∧
      Alone (s.take due) := by
  rw [work_going hgoing, Ledger.take]
  split
  · next r rest hqueue =>
      refine ⟨?_, rfl, .inr rfl⟩
      rw [work_busy rfl, hqueue]
      show backlog rest.length + 4 < 6 * (rest.length + 1) + 4
      rw [backlog]
      split
      · omega
      · omega
  · next hqueue =>
      split
      · refine ⟨?_, rfl, .inr rfl⟩
        rw [work_busy rfl, hqueue]
        exact Nat.lt_succ_self 3
      · refine ⟨?_, rfl, .inl hfree⟩
        rw [work_waiting rfl, hqueue]
        show 1 < 4
        omega

/-- A section behind which the writer still has the disk lock. -/
theorem busy_work {s s' : Ledger C} {n : Nat} (hbusy : s'.writer = .busy)
    (hqueue : s'.p.queue = s.p.queue) (hclosing : s'.closing = s.closing)
    (hleft : sectionsLeft s'.phase < n) (hwriters : s'.phase.writers = true) :
    work s' < backlog s.p.queue.length + n ∧ s'.closing = s.closing ∧ Alone s' := by
  refine ⟨?_, hclosing, .inr hwriters⟩
  rw [work_busy hbusy, hqueue]
  omega

/-- A section behind which the writer waits. -/
theorem waiting_work {s s' : Ledger C} {n : Nat} (hwaiting : s'.writer = .waiting)
    (hqueue : s'.p.queue = s.p.queue) (hclosing : s'.closing = s.closing) (hpos : 0 < n)
    (hfree : s'.phase.isFree = true) :
    work s' < backlog s.p.queue.length + n ∧ s'.closing = s.closing ∧ Alone s' := by
  refine ⟨?_, hclosing, .inl hfree⟩
  rw [work_waiting hwaiting, hqueue]
  omega

theorem appended_left (r : C.Rec) (due stored : Bool) :
    sectionsLeft (if due = true then Phase.copy (.count r) else .count r stored) < 4 ∧
      (if due = true then Phase.copy (.count r) else .count r stored : Phase C).writers = true := by
  cases due with
  | true => exact ⟨Nat.lt_succ_self 3, rfl⟩
  | false => exact ⟨Nat.lt_of_sub_eq_succ rfl, rfl⟩

/-- The end of a compaction of the writer. -/
theorem resume_work {s : Ledger C} {next : After C} {n : Nat} (hbusy : s.writer = .busy)
    (hnext : (Phase.copy next : Phase C).writers = true) (hn : sectionsLeft (Phase.copy next) ≤ n + 1) :
    work (s.resume next) < backlog s.p.queue.length + n ∧
      (s.resume next).closing = s.closing ∧ Alone (s.resume next) := by
  cases next with
  | count r => exact busy_work hbusy rfl rfl (Nat.le_of_succ_le_succ hn) rfl
  | nothing => exact waiting_work rfl rfl rfl (Nat.le_of_succ_le_succ hn) rfl
  | settings => cases hnext

theorem proceed_work {s s' : Ledger C} {w : World} (hbusy : s.writer = .busy)
    (hwriters : s.phase.writers = true) (hstep : s.proceed w = some s') :
    work s' < work s ∧ s'.closing = s.closing ∧ Alone s' := by
  rw [work_busy hbusy]
  rw [Ledger.proceed] at hstep
  split at hstep
  · cases hstep
  · next r hphase =>
      cases hstep
      rw [hphase]
      obtain ⟨hleft, hstill⟩ := appended_left r ((append C s.dir r w.cut).2 && w.due)
        (append C s.dir r w.cut).2
      exact busy_work hbusy rfl rfl hleft hstill
  · next r stored hphase =>
      cases hstep
      rw [hphase]
      cases stored with
      | true | false => exact waiting_work rfl rfl rfl Nat.one_pos rfl
  · next next hphase =>
      rw [hphase] at hwriters ⊢
      split at hstep
      · cases hstep
        cases next with
        | count r => exact busy_work hbusy rfl rfl (Nat.lt_succ_self 2) rfl
        | nothing => exact busy_work hbusy rfl rfl (Nat.lt_succ_self 1) rfl
        | settings => cases hwriters
      · cases hstep
        exact resume_work hbusy hwriters (Nat.le_succ _)
  · next next recs hphase =>
      rw [hphase] at hwriters ⊢
      cases hstep
      cases next with
      | count r => exact busy_work hbusy rfl rfl (Nat.lt_succ_self 1) rfl
      | nothing => exact waiting_work rfl rfl rfl Nat.one_pos rfl
      | settings => cases hwriters
  · next hphase =>
      rw [hphase] at hwriters
      cases hwriters
  · next hphase =>
      rw [hphase] at hwriters
      cases hwriters
  · next hphase =>
      rw [hphase] at hwriters
      cases hwriters

/-- Behind the close there are the clock and the writer, and each section of the writer takes one
from what is left. -/
theorem closed_work {s s' : Ledger C} {d : Deed C} (ha : Accounts s) (hclosing : s.closing = true)
    (halone : Alone s) (hstep : s.step d = some s') :
    work s' + (!isTick d).toNat ≤ work s ∧ s'.closing = true ∧ Alone s' := by
  have hshut : ¬s.closing = false := by
    rw [hclosing]
    exact nofun
  cases d with
  | tick n =>
      cases hstep
      exact ⟨Nat.le_refl _, hclosing, halone⟩
  | begin | adopt | exports =>
      rw [Ledger.step, if_pos hclosing] at hstep
      cases hstep
  | submit t r =>
      rw [Ledger.step, if_neg fun h => hshut h.1] at hstep
      cases hstep
  | settings enabled days stored =>
      rw [Ledger.step, if_neg fun h => hshut h.1] at hstep
      cases hstep
  | clear stored =>
      rw [Ledger.step, if_neg fun h => hshut h.1] at hstep
      cases hstep
  | close =>
      rw [Ledger.step, if_neg fun h => hshut h.1] at hstep
      cases hstep
  | wake =>
      rw [Ledger.step] at hstep
      split at hstep
      · next hwaiting =>
          rw [work_waiting hwaiting]
          split at hstep
          · next hend =>
              cases hstep
              refine ⟨?_, hclosing, halone⟩
              rw [hend.2]
              exact Nat.le_refl _
          · next hopen =>
              cases hstep
              refine ⟨?_, hclosing, halone⟩
              have hqueue : s.p.queue.length ≠ 0 := fun h =>
                hopen ⟨hclosing, List.eq_nil_of_length_eq_zero h⟩
              rw [work_going rfl, backlog, if_neg hqueue]
              exact Nat.le_refl _
      · cases hstep
  | take due =>
      rw [Ledger.step] at hstep
      split at hstep
      · next hgoing =>
          cases hstep
          obtain ⟨hlt, hstays, hthen⟩ := take_work hgoing.1 hgoing.2 due
          exact ⟨hlt, hstays.trans hclosing, hthen⟩
      · cases hstep
  | proceed w =>
      have hwriters : s.phase.writers = true := by
        rcases halone with hfree | hwriters
        · cases hphase : s.phase with
          | free =>
              rw [Ledger.step, Ledger.proceed, hphase] at hstep
              cases hstep
          | _ =>
              rw [hphase] at hfree
              cases hfree
        · exact hwriters
      obtain ⟨hlt, hstays, hthen⟩ := proceed_work (ha.busy.mpr hwriters) hwriters hstep
      exact ⟨hlt, hstays.trans hclosing, hthen⟩

theorem resume_closing (s : Ledger C) (next : After C) : (s.resume next).closing = s.closing := by
  cases next with
  | count | nothing | settings => rfl

theorem step_closing {s s' : Ledger C} {d : Deed C} (hstep : s.step d = some s') :
    s'.closing = s.closing ∨ d = .close := by
  cases d with
  | tick n =>
      cases hstep
      exact .inl rfl
  | begin | adopt | exports =>
      rw [Ledger.step] at hstep
      split at hstep
      · cases hstep
      · cases hstep
        exact .inl rfl
  | settings | clear =>
      rw [Ledger.step] at hstep
      split at hstep
      · cases hstep
        exact .inl rfl
      · cases hstep
  | submit t r =>
      rw [Ledger.step] at hstep
      split at hstep
      · cases hstep
        rw [Ledger.submit]
        dsimp only
        split
        · exact .inl rfl
        · exact .inl rfl
      · cases hstep
  | wake =>
      rw [Ledger.step] at hstep
      split at hstep
      · split at hstep
        · cases hstep
          exact .inl rfl
        · cases hstep
          exact .inl rfl
      · cases hstep
  | take due =>
      rw [Ledger.step] at hstep
      split at hstep
      · cases hstep
        rw [Ledger.take]
        split
        · exact .inl rfl
        · split
          · exact .inl rfl
          · exact .inl rfl
      · cases hstep
  | proceed w =>
      rw [Ledger.step, Ledger.proceed] at hstep
      split at hstep
      · cases hstep
      · cases hstep
        exact .inl rfl
      · cases hstep
        exact .inl rfl
      · split at hstep
        · cases hstep
          exact .inl rfl
        · cases hstep
          exact .inl (resume_closing _ _)
      · cases hstep
        exact .inl (resume_closing _ _)
      · cases hstep
        exact .inl rfl
      · cases hstep
        exact .inl rfl
      · cases hstep
        exact .inl rfl
  | close => exact .inr rfl

theorem step_alone {s s' : Ledger C} {d : Deed C} (ha : Accounts s)
    (h : s.closing = true → Alone s) (hstep : s.step d = some s') :
    s'.closing = true → Alone s' := by
  intro hclosed
  cases hclosing : s.closing with
  | true => exact (closed_work ha hclosing (h hclosing) hstep).2.2
  | false =>
      rcases step_closing hstep with hstays | rfl
      · rw [hstays, hclosing] at hclosed
        cases hclosed
      · rw [Ledger.step] at hstep
        split at hstep
        · next hopen =>
            cases hstep
            exact hopen.2
        · cases hstep

theorem reach_alone {s : Ledger C} (h : (ledgerMachine C).Reach Machine.free s) :
    s.closing = true → Alone s := by
  refine h.invariant (fun _ hi hclosed => ?_) fun _ _ _ hr _ hstep hs =>
    step_alone (reach_accounts hr) hs hstep
  obtain ⟨_, _, _, _, hopen, _⟩ := hi
  rw [hopen] at hclosed
  cases hclosed

theorem proceed_possible {s : Ledger C} (h : s.phase.writers = true) (w : World) :
    (s.proceed w).isSome = true := by
  rw [Ledger.proceed]
  cases hphase : s.phase with
  | free | settings | unlink | clear =>
      rw [hphase] at h
      cases h
  | append | count | replace => rfl
  | copy next =>
      dsimp only
      split
      · rfl
      · rfl

/-- The writer is never stuck: whatever its next section meets, it is possible. -/
theorem writer_possible {s : Ledger C} (ha : Accounts s) (halone : Alone s)
    (hlives : s.writer ≠ .ended) (due : Bool) (w : World) :
    (s.step .wake).isSome = true ∨ (s.step (.take due)).isSome = true ∨
      (s.step (.proceed w)).isSome = true := by
  have hfree (hidle : s.writer ≠ .busy) : s.phase.isFree = true := by
    rcases halone with hfree | hwriters
    · exact hfree
    · exact absurd (ha.busy.mpr hwriters) hidle
  cases hwriter : s.writer with
  | ended => exact absurd hwriter hlives
  | waiting =>
      refine .inl ?_
      rw [Ledger.step, if_pos hwriter]
      split
      · rfl
      · rfl
  | going =>
      refine .inr (.inl ?_)
      rw [Ledger.step, if_pos ⟨hwriter, hfree (by rw [hwriter]; exact nofun)⟩]
      rfl
  | busy => exact .inr (.inr (proceed_possible (ha.busy.mp hwriter) w))

/-- Once the history is closed, the writer makes at most `work s` more sections and is not stuck
before its end; there it is through with every record that entered the queue. -/
theorem close_drains {s s' : Ledger C} {ds : List (Deed C)}
    (h : (ledgerMachine C).Reach Machine.free s) (hclosing : s.closing = true)
    (hrun : (ledgerMachine C).run s ds = some s') :
    ds.countP (!isTick ·) + work s' ≤ work s ∧
      (s'.writer ≠ .ended → ∀ due w, (s'.step .wake).isSome = true ∨
        (s'.step (.take due)).isSome = true ∨ (s'.step (.proceed w)).isSome = true) ∧
      (s'.writer = .ended → s'.sent = s'.written.map Prod.fst ∧
        s'.p.persisted + s'.p.dropped = s'.loaded + s'.spilled + s'.sent.length) := by
  have hstep (t : Ledger C) (d : Deed C) (t' : Ledger C)
      (ht : Accounts t ∧ t.closing = true ∧ Alone t) (hd : t.step d = some t') :
      (Accounts t' ∧ t'.closing = true ∧ Alone t') ∧ work t' + (!isTick d).toNat ≤ work t := by
    obtain ⟨hle, hshut, halone⟩ := closed_work ht.1 ht.2.1 ht.2.2 hd
    exact ⟨⟨step_accounts ht.1 hd, hshut, halone⟩, hle⟩
  obtain ⟨⟨ha, -, halone⟩, hle⟩ := Machine.run_bounded (M := ledgerMachine C)
    (p := fun d => !isTick d) hstep ⟨reach_accounts h, hclosing, reach_alone h hclosing⟩ hrun
  refine ⟨hle, fun hlives due w => writer_possible ha halone hlives due w, fun hended => ?_⟩
  have hqueue := (ha.ended hended).2
  have hflight : flight s'.phase = [] := by
    rcases halone with hfree | hwriters
    · exact flight_free hfree
    · rw [ha.busy.mpr hwriters] at hended
      cases hended
  have hsent : s'.sent = s'.written.map Prod.fst := by
    rw [ha.order, hqueue, hflight, List.append_nil, List.append_nil]
  have hall := List.length_eq_countP_add_countP (fun x : C.Rec × Bool => x.2) (l := s'.written)
  refine ⟨hsent, ?_⟩
  rw [hsent, List.length_map, ha.persisted, ha.dropped]
  simp only [Bool.not_eq_true, Bool.decide_eq_false] at hall
  omega

/-- A history that is closed with two records left, to its end. -/
theorem close_drains_two : ∃ s s' : Ledger (unary 2),
    (ledgerMachine (unary 2)).run (emptyLedger (unary 2)) (twoSubmits 1 2 ++ [.close]) = some s ∧
      (ledgerMachine (unary 2)).run s
        [.proceed {}, .proceed {}, .wake, .take false, .proceed {}, .proceed {}, .wake] = some s' ∧
      s'.writer = .ended ∧ s'.sent = s'.written.map Prod.fst ∧
      s'.written = [((1 : Fin 3), true), ((2 : Fin 3), true)] := by
  have hsome : ((ledgerMachine (unary 2)).run (emptyLedger (unary 2))
      (twoSubmits 1 2 ++ [.close])).isSome = true := rfl
  obtain ⟨s, hrun⟩ := Option.isSome_iff_exists.mp hsome
  have hs := Machine.run_reach (fun _ _ => trivial) (emptyLedger_reach (unary 2)) hrun
  have hclosing : s.closing = true := by
    cases hrun
    rfl
  have hthen : ((ledgerMachine (unary 2)).run s
      [.proceed {}, .proceed {}, .wake, .take false, .proceed {}, .proceed {}, .wake]).isSome =
        true := by
    cases hrun
    rfl
  obtain ⟨s', hend⟩ := Option.isSome_iff_exists.mp hthen
  have hended : s'.writer = .ended := by
    cases hrun
    cases hend
    rfl
  refine ⟨s, s', hrun, hend, hended, ((close_drains hs hclosing hend).2.2 hended).1, ?_⟩
  cases hrun
  cases hend
  rfl

end GeistServe.Proofs
