import GeistServe.App.Jobs

/-!
# What a model job removes

A model file is some gigabytes, and a job that removes it by mistake costs its user a
download. `model_job` calls `unlink` in one place, behind a condition that reads `size_ok`
where the size is meant: it is also false when the file could not be looked at, and when
it is no regular file.

The stamp is a text, and two stamps are compared as texts. The first section shows that
the text tells every number of the status, and that it always fits its buffer. The
download comes next: it does nothing to the part file but make it longer, up to the size
of the model. What the job removes is then read off its one `unlink`.
-/

namespace GeistServe.Proofs

open GeistServe.Lib GeistServe.Geistd GeistServe.Jobs
open GeistServe.Perf (decimal decimal_inj decimal_length decimal_bytes)

/-! ## The stamp tells the status -/

/-- Words without blanks, with one blank in front of each, are told apart. -/
theorem spaced_inj {ws vs : List CStr} (hws : ∀ w ∈ ws, (32 : UInt8) ∉ w)
    (hvs : ∀ v ∈ vs, (32 : UInt8) ∉ v)
    (h : ws.flatMap (fun w => 32 :: w) = vs.flatMap (fun v => 32 :: v)) : ws = vs := by
  induction ws generalizing vs with
  | nil =>
      cases vs with
      | nil => rfl
      | cons v vs => cases h
  | cons w ws ih =>
      cases vs with
      | nil => cases h
      | cons v vs =>
        rw [List.flatMap_cons, List.flatMap_cons, List.cons_append, List.cons_append] at h
        have h := List.tail_eq_of_cons_eq h
        have hblank : ∀ us : List CStr, (us.flatMap fun u => (32 : UInt8) :: u) = [] ∨
            ∃ t, (us.flatMap fun u => (32 : UInt8) :: u) = 32 :: t := by
          intro us
          cases us with
          | nil => exact .inl rfl
          | cons u us => exact .inr ⟨_, rfl⟩
        -- the first word ends where the first blank is
        have hhead : ∀ u : CStr, (32 : UInt8) ∉ u → ∀ us : List CStr,
            (u ++ us.flatMap fun u => (32 : UInt8) :: u).takeWhile (fun b => decide (b ≠ 32)) =
              u := by
          intro u hu us
          have hall : ∀ b ∈ u, decide (b ≠ 32) = true := by
            intro b hb
            exact decide_eq_true fun heq => hu (heq ▸ hb)
          rw [List.takeWhile_append_of_pos hall]
          rcases hblank us with hus | ⟨t, hus⟩
          · rw [hus, List.takeWhile_nil, List.append_nil]
          · rw [hus, List.takeWhile_cons_of_neg (by decide), List.append_nil]
        have heq : w = v := by
          rw [← hhead w (hws w (List.mem_cons_self ..)) ws, h,
            hhead v (hvs v (List.mem_cons_self ..)) vs]
        subst heq
        rw [ih (fun u hu => hws u (List.mem_cons_of_mem _ hu))
          (fun u hu => hvs u (List.mem_cons_of_mem _ hu)) (List.append_cancel_left h)]

theorem signed_bytes (i : Int64) : ∀ b ∈ signed i, b.toNat = 45 ∨ 48 ≤ b.toNat := by
  intro b hb
  rw [signed] at hb
  split at hb
  · rcases List.mem_cons.mp hb with rfl | hb
    · exact .inl rfl
    · exact .inr (decimal_bytes _ b hb).1
  · exact .inr (decimal_bytes _ b hb).1

theorem signed_inj {i j : Int64} (h : signed i = signed j) : i = j := by
  have hdigit : ∀ (m n : Nat), 45 :: decimal m ≠ decimal n := by
    intro m n heq
    have := decimal_bytes n 45 (heq ▸ List.mem_cons_self ..)
    exact absurd this (by decide)
  rw [signed, signed] at h
  refine Int64.toInt_inj.mp ?_
  split at h
  · split at h
    · have := decimal_inj (List.tail_eq_of_cons_eq h)
      omega
    · exact absurd h (hdigit _ _)
  · split at h
    · exact absurd h.symm (hdigit _ _)
    · have := decimal_inj h
      omega

theorem signed_length (i : Int64) : (signed i).length ≤ 21 := by
  have hlo := Int64.le_toInt i
  have hhi := Int64.toInt_lt i
  have hlen := decimal_length (n := i.toInt.natAbs) (by omega)
  rw [signed]
  split
  · rw [List.length_cons]
    omega
  · omega

theorem numbers_blank (s : Stat) : ∀ w ∈ s.numbers, (32 : UInt8) ∉ w := by
  have hdecimal : ∀ n, (32 : UInt8) ∉ decimal n := by
    intro n h
    exact absurd (decimal_bytes n 32 h).1 (by decide)
  have hsigned : ∀ i, (32 : UInt8) ∉ signed i := by
    intro i h
    exact absurd (signed_bytes i 32 h) (by decide)
  intro w hw
  simp only [Stat.numbers, List.mem_cons, List.not_mem_nil, or_false] at hw
  rcases hw with rfl | rfl | rfl | rfl | rfl | rfl | rfl | rfl | rfl | rfl | rfl
  all_goals first
    | exact hdecimal _
    | exact hsigned _

theorem numbers_inj {s t : Stat} (h : s.numbers = t.numbers) : s = t := by
  simp only [Stat.numbers, List.cons.injEq, and_true] at h
  obtain ⟨hdev, hino, hsize, hmode, huid, hgid, hnlink, hmtime, hmnsec, hctime, hcnsec⟩ := h
  have hunsigned : ∀ {a b : UInt64}, decimal a.toNat = decimal b.toNat → a = b :=
    fun h => UInt64.toNat_inj.mp (decimal_inj h)
  cases s
  cases t
  congr
  · exact hunsigned hdev
  · exact hunsigned hino
  · exact congrArg UInt64.toInt64 (hunsigned hsize)
  · exact hunsigned hmode
  · exact hunsigned huid
  · exact hunsigned hgid
  · exact hunsigned hnlink
  · exact signed_inj hmtime
  · exact signed_inj hmnsec
  · exact signed_inj hctime
  · exact signed_inj hcnsec

theorem stampText_inj {m : AppModel} {s t : Stat} (h : stampText m s = stampText m t) : s = t := by
  rw [stampText, stampText] at h
  exact numbers_inj (spaced_inj (numbers_blank s) (numbers_blank t) (List.append_cancel_left h))

/-- The buffer of a stamp is large enough. -/
theorem stampText_fits (m : AppModel) (s : Stat) : (stampText m s).length < 512 := by
  have hunsigned : ∀ a : UInt64, (decimal a.toNat).length ≤ 20 :=
    fun a => decimal_length a.toNat_lt
  have h₁ := hunsigned s.dev
  have h₂ := hunsigned s.ino
  have h₃ := hunsigned s.size.toUInt64
  have h₄ := hunsigned s.mode
  have h₅ := hunsigned s.uid
  have h₆ := hunsigned s.gid
  have h₇ := hunsigned s.nlink
  have h₈ := signed_length s.mtime
  have h₉ := signed_length s.mtimeNsec
  have h₁₀ := signed_length s.ctime
  have h₁₁ := signed_length s.ctimeNsec
  have hv : (lit "v1 ").length = 3 := by decide
  simp only [stampText, Stat.numbers, List.flatMap_cons, List.flatMap_nil, List.length_append,
    List.length_cons, List.length_nil, m.digest, hv]
  omega

theorem modelStamp_some {m : AppModel} {a : Option Stat} {t : CStr} :
    modelStamp m a = some t ↔ ∃ s, a = some s ∧ s.whole m = true ∧ stampText m s = t := by
  cases a with
  | none =>
      constructor
      · intro h
        cases h
      · rintro ⟨s, h, _⟩
        cases h
  | some s =>
      rw [modelStamp]
      split
      · next h =>
          rw [if_pos (stampText_fits m s)]
          constructor
          · intro ht
            exact ⟨s, rfl, h, Option.some.inj ht⟩
          · rintro ⟨s', hs, _, ht⟩
            rw [Option.some.inj hs, ht]
      · next h =>
          constructor
          · intro ht
            cases ht
          · rintro ⟨s', hs, hw, _⟩
            exact absurd (Option.some.inj hs ▸ hw) h

/-- A stamp is made of a whole file alone. -/
theorem modelStamp_isSome {m : AppModel} {a : Option Stat} :
    (modelStamp m a).isSome = true ↔ ∃ s, a = some s ∧ s.whole m = true := by
  rw [Option.isSome_iff_exists]
  constructor
  · rintro ⟨t, ht⟩
    obtain ⟨s, hs, hw, _⟩ := modelStamp_some.mp ht
    exact ⟨s, hs, hw⟩
  · rintro ⟨s, hs, hw⟩
    exact ⟨_, modelStamp_some.mpr ⟨s, hs, hw, rfl⟩⟩

/-- `stable`: both calls found one status, of a whole file. -/
theorem stable_iff {m : AppModel} {c : JobCalls} :
    stable m c = true ↔ ∃ s, c.before = some s ∧ c.after = some s ∧ s.whole m = true := by
  rw [stable, Bool.and_eq_true, decide_eq_true_eq]
  constructor
  · rintro ⟨ha, heq⟩
    obtain ⟨t, ht⟩ := Option.isSome_iff_exists.mp ha
    obtain ⟨s, hs, hw, hst⟩ := modelStamp_some.mp ht
    obtain ⟨s', hs', _, hst'⟩ := modelStamp_some.mp (heq ▸ ht)
    have hss : s = s' := stampText_inj (hst.trans hst'.symm)
    exact ⟨s, hss ▸ hs', hs, hw⟩
  · rintro ⟨s, hb, ha, hw⟩
    rw [ha, hb]
    have hstamp := modelStamp_isSome.mpr ⟨s, rfl, hw⟩
    exact ⟨hstamp, rfl⟩

/-! ## The download makes the part file longer -/

/-- Every call of a download was answered well, and the chunks have filled the file. -/
def Fetched (m : AppModel) (c : DownloadCalls) : Prop :=
  c.opened = .ok () ∧ c.stream = true ∧ c.flushed = true ∧ c.synced = true ∧ c.closed = true ∧
  ∃ s, c.found = some s ∧ s.resumable m = true ∧
    (s.size.toInt.toNat = m.bytes.toNat ∨
      c.atEnd = true ∧ c.connected = true ∧ c.transfer.done = true ∧
      (c.transfer.status = 200 ∨ c.transfer.status = 206) ∧
      (receive m.bytes.toNat s.size.toInt.toNat c.transfer.chunks).getLastD s.size.toInt.toNat =
        m.bytes.toNat)

theorem downloadWrite_bounds (limit bytes : Nat) (c : Chunk) :
    bytes ≤ (downloadWrite limit bytes c).1 ∧
      (bytes ≤ limit → (downloadWrite limit bytes c).1 ≤ limit) := by
  rw [downloadWrite]
  split
  · exact ⟨Nat.le_refl _, id⟩
  · next h =>
      simp only [Bool.or_eq_true, decide_eq_true_eq, not_or, Nat.not_lt] at h
      refine ⟨Nat.le_add_right _ _, fun _ => ?_⟩
      have := h.2
      omega

theorem receive_bounds {limit bytes : Nat} (cs : List Chunk) (h : bytes ≤ limit) :
    ∀ n ∈ receive limit bytes cs, bytes ≤ n ∧ n ≤ limit := by
  induction cs generalizing bytes with
  | nil =>
      intro n hn
      cases hn
  | cons c cs ih =>
      have hwrite := downloadWrite_bounds limit bytes c
      intro n hn
      rw [receive] at hn
      rcases List.mem_cons.mp hn with rfl | hn
      · exact ⟨hwrite.1, hwrite.2 h⟩
      · split at hn
        · have := ih (hwrite.2 h) n hn
          omega
        · cases hn

theorem resumable_iff {m : AppModel} {s : Stat} :
    s.resumable m = true ↔
      s.regular = true ∧ 0 ≤ s.size.toInt ∧ s.size.toInt.toNat ≤ m.bytes.toNat := by
  simp only [Stat.resumable, Bool.and_eq_true, decide_eq_true_eq, and_assoc]

theorem transferred_bounds {m : AppModel} {bytes : Nat} (c : DownloadCalls)
    (h : bytes ≤ m.bytes.toNat) :
    ∀ n ∈ transferred m bytes c, bytes ≤ n ∧ n ≤ m.bytes.toNat := by
  intro n hn
  rw [transferred] at hn
  split at hn
  · exact receive_bounds _ h n hn
  · cases hn

/-- The part file has no size below the one it was found with, and none above the size of
the model. -/
theorem downloadModel_sizes {m : AppModel} {c : DownloadCalls} {n : Nat}
    (h : n ∈ (downloadModel m c).sizes) :
    n ≤ m.bytes.toNat ∧ ∀ s, c.found = some s → s.size.toInt ≤ n := by
  rw [downloadModel] at h
  cases hopened : c.opened with
  | error e =>
      rw [hopened] at h
      cases h
  | ok u =>
      cases hfound : c.found with
      | none =>
          rw [hopened, hfound] at h
          cases h
      | some s =>
          rw [hopened, hfound] at h
          dsimp only at h
          split at h
          · cases h
          · next hres =>
              rw [Bool.not_eq_true', Bool.not_eq_false, resumable_iff] at hres
              have hsizes : n = s.size.toInt.toNat ∨
                  n ∈ transferred m s.size.toInt.toNat c := by
                split at h
                · exact .inl (List.mem_singleton.mp h)
                · split at h
                  · exact List.mem_cons.mp h
                  · exact List.mem_cons.mp h
              have hn : s.size.toInt.toNat ≤ n ∧ n ≤ m.bytes.toNat := by
                rcases hsizes with rfl | hn
                · exact ⟨Nat.le_refl _, hres.2.2⟩
                · exact transferred_bounds c hres.2.2 n hn
              refine ⟨hn.2, ?_⟩
              intro t ht
              obtain rfl := Option.some.inj ht
              omega

theorem transfer_ok {m : AppModel} {bytes : Nat} {c : DownloadCalls} :
    (transfer m bytes c).1 = true ↔ bytes = m.bytes.toNat ∨
      c.atEnd = true ∧ c.connected = true ∧ c.transfer.done = true ∧
      (c.transfer.status = 200 ∨ c.transfer.status = 206) ∧
      (receive m.bytes.toNat bytes c.transfer.chunks).getLastD bytes = m.bytes.toNat := by
  rw [transfer]
  split
  · next h => exact ⟨fun _ => .inl h, fun _ => rfl⟩
  · next h =>
      rw [or_iff_right h]
      split
      · next hconn =>
          rw [Bool.and_eq_true] at hconn
          have hall : transferred m bytes c = receive m.bytes.toNat bytes c.transfer.chunks := by
            rw [transferred, hconn.1, hconn.2, decide_eq_true h]
            rfl
          rw [hall]
          split
          · next hdone =>
              simp only [Bool.and_eq_true, Bool.or_eq_true, decide_eq_true_eq] at hdone
              exact ⟨fun _ => ⟨hconn.1, hconn.2, hdone.1.1, hdone.1.2, hdone.2⟩, fun _ => rfl⟩
          · next hdone =>
              simp only [Bool.and_eq_true, Bool.or_eq_true, decide_eq_true_eq] at hdone
              constructor
              · intro h
                cases h
              · rintro ⟨_, _, hcurl, hstatus, hlast⟩
                exact absurd ⟨⟨hcurl, hstatus⟩, hlast⟩ hdone
      · next hconn =>
          rw [Bool.and_eq_true] at hconn
          constructor
          · intro h
            cases h
          · rintro ⟨hend, hconnected, _⟩
            exact absurd ⟨hend, hconnected⟩ hconn

theorem downloadModel_ok {m : AppModel} {c : DownloadCalls} :
    (downloadModel m c).ok = true ↔ Fetched m c := by
  rw [downloadModel, Fetched]
  cases hopened : c.opened with
  | error e =>
      constructor
      · intro h
        cases h
      · rintro ⟨h, _⟩
        cases h
  | ok u =>
      cases hfound : c.found with
      | none =>
          constructor
          · intro h
            cases h
          · rintro ⟨_, _, _, _, _, s, h, _⟩
            cases h
      | some s =>
          dsimp only
          by_cases hres : s.resumable m = true
          case neg =>
            rw [Bool.eq_false_iff.mpr hres]
            constructor
            · intro h
              cases h
            · rintro ⟨_, _, _, _, _, t, ht, htres, _⟩
              exact absurd (Option.some.inj ht ▸ htres) hres
          rw [hres]
          cases c.stream <;> cases c.flushed <;> cases c.synced <;> cases c.closed
          all_goals
            simp [transfer_ok, hres]

/-! ## The one call of `unlink` -/

section
variable {sha256 : Bytes → CStr} {m : AppModel} {o : Order} {c : JobCalls}

/-- The job comes to the verification, and is not cancelled when it decides. -/
def Decides (m : AppModel) (o : Order) (c : JobCalls) : Prop :=
  c.paths = true ∧ (o.download = true → Fetched m c.download) ∧ c.stoppedBefore = false ∧
    c.stoppedAtRemoval = false

theorem fetch_ok : (fetch m o c).ok = true ↔
    c.paths = true ∧ (o.download = true → Fetched m c.download) := by
  rw [fetch]
  cases c.paths with
  | false => simp
  | true =>
      cases o.download with
      | false => simp
      | true => simp [downloadModel_ok]

/-- The download has no deeds but the sizes of the part file. -/
theorem fetch_deeds {d : Deed} (h : d ∈ (fetch m o c).deeds) :
    ∃ n ∈ (downloadModel m c.download).sizes, d = .wrote n := by
  rw [fetch] at h
  split at h
  · cases h
  · split at h
    · obtain ⟨n, hn, heq⟩ := List.mem_map.mp h
      exact ⟨n, hn, heq.symm⟩
    · cases h

/-- `size_ok` is false, or the file was read and its digest is another one. -/
def Refused (sha256 : Bytes → CStr) (m : AppModel) (o : Order) (c : JobCalls) : Prop :=
  modelStamp m c.before = none ∨
    stable m c = true ∧ ∃ d, digestOf sha256 m o c = some d ∧ d ≠ m.sha256

theorem cached_stamped (h : cached m o c = true) : (modelStamp m c.before).isSome = true := by
  rw [cached, Bool.and_eq_true, Bool.and_eq_true] at h
  exact h.1.2

theorem stable_stamped (h : stable m c = true) : modelStamp m c.before ≠ none := by
  rw [stable, Bool.and_eq_true, decide_eq_true_eq] at h
  intro hb
  rw [h.2, hb] at h
  cases h.1

theorem verifyFile_removes (p : Progress) (f : FileName)
    (hp : Deed.unlinked f ∉ p.deeds) :
    Deed.unlinked f ∈ (verifyFile sha256 m o c p).deeds ↔
      f = o.verify ∧ c.stoppedAtRemoval = false ∧ Refused sha256 m o c := by
  rw [verifyFile]
  dsimp only
  split
  · next hok =>
      simp only [Bool.and_eq_true, Bool.or_eq_true, decide_eq_true_eq] at hok
      refine ⟨fun h => absurd h hp, ?_⟩
      rintro ⟨_, _, hnone | ⟨_, d, hd, hne⟩⟩
      · exact absurd hnone (stable_stamped hok.1.2)
      · rcases hok.2 with hcached | hsame
        · rw [digestOf, hcached] at hd
          cases hd
        · exact absurd (Option.some.inj (hd.symm.trans hsame)) hne
  · next hok =>
      simp only [Bool.and_eq_true, Bool.or_eq_true, decide_eq_true_eq, not_and, not_or] at hok
      split
      · next hrm =>
          simp only [Bool.and_eq_true, Bool.or_eq_true, Bool.not_eq_true',
            Option.isSome_eq_false_iff, Option.isNone_iff_eq_none] at hrm
          have hrefused : Refused sha256 m o c := by
            rcases hrm.2 with hnone | ⟨hread, hstable⟩
            · exact .inl hnone
            · obtain ⟨hcached, hsha⟩ := hok ⟨hread, hstable⟩
              obtain ⟨d, hd⟩ := Option.isSome_iff_exists.mp (hread.resolve_left hcached)
              refine .inr ⟨hstable, d, hd, ?_⟩
              rintro rfl
              exact hsha hd
          rw [List.mem_append, List.mem_singleton, Deed.unlinked.injEq]
          exact ⟨fun h => ⟨h.resolve_left hp, hrm.1, hrefused⟩, fun h => .inr h.1⟩
      · next hrm =>
          simp only [Bool.and_eq_true, Bool.or_eq_true, Bool.not_eq_true',
            Option.isSome_eq_false_iff, Option.isNone_iff_eq_none] at hrm
          have hdeeds : ∀ q : Progress, q.deeds = p.deeds →
              (Deed.unlinked f ∈ q.deeds ↔
                f = o.verify ∧ c.stoppedAtRemoval = false ∧ Refused sha256 m o c) := by
            intro q hq
            rw [hq]
            refine ⟨fun h => absurd h hp, ?_⟩
            rintro ⟨_, hstop, hnone | ⟨hstable, d, hd, _⟩⟩
            · exact absurd ⟨hstop, .inl hnone⟩ hrm
            · refine absurd ⟨hstop, .inr ⟨.inr ?_, hstable⟩⟩ hrm
              rw [hd]
              rfl
          split
          · exact hdeeds _ rfl
          · exact hdeeds _ rfl

theorem placeFile_removes (p : Progress) (f : FileName) :
    Deed.unlinked f ∈ (placeFile m c p).deeds ↔ Deed.unlinked f ∈ p.deeds := by
  have hrenamed : Deed.unlinked f ∈ p.deeds ++ [Deed.renamed] ↔ Deed.unlinked f ∈ p.deeds := by
    simp
  rw [placeFile]
  dsimp only
  split
  · rfl
  · split
    · rfl
    · split
      · split
        · exact hrenamed
        · exact hrenamed
      · exact hrenamed

theorem saveReceipt_removes (p : Progress) (f : FileName) :
    Deed.unlinked f ∈ (saveReceipt m o c p).deeds ↔ Deed.unlinked f ∈ p.deeds := by
  rw [saveReceipt]
  split
  · simp
  · rfl

theorem prepare_removes (f : FileName) :
    Deed.unlinked f ∈ (prepare sha256 m o c).deeds ↔
      f = o.verify ∧ Decides m o c ∧ Refused sha256 m o c := by
  have hfetch : Deed.unlinked f ∉ (fetch m o c).deeds := by
    intro h
    obtain ⟨n, _, hn⟩ := fetch_deeds h
    cases hn
  have hverify : Deed.unlinked f ∈ (verifyFile sha256 m o c (fetch m o c)).deeds ↔
      f = o.verify ∧ c.stoppedAtRemoval = false ∧ Refused sha256 m o c :=
    verifyFile_removes _ f hfetch
  rw [prepare, Decides]
  dsimp only
  split
  · next h =>
      rw [Bool.and_eq_true, fetch_ok, Bool.not_eq_true'] at h
      rw [saveReceipt_removes]
      have hplaced : ∀ q : Progress,
          (Deed.unlinked f ∈ (if (q.ok && o.download) = true then placeFile m c q else q).deeds ↔
            Deed.unlinked f ∈ q.deeds) := by
        intro q
        split
        · exact placeFile_removes q f
        · rfl
      rw [hplaced, hverify]
      constructor
      · rintro ⟨hf, hstop, href⟩
        exact ⟨hf, ⟨h.1.1, h.1.2, h.2, hstop⟩, href⟩
      · rintro ⟨hf, ⟨_, _, _, hstop⟩, href⟩
        exact ⟨hf, hstop, href⟩
  · next h =>
      rw [Bool.and_eq_true, fetch_ok, Bool.not_eq_true'] at h
      constructor
      · intro hd
        exact absurd hd hfetch
      · rintro ⟨_, ⟨hpaths, hfetched, hstop, _⟩, _⟩
        exact absurd ⟨⟨hpaths, hfetched⟩, hstop⟩ h

/-- The end of a job starts the model, and does nothing else. -/
theorem modelJob_deeds (d : Deed) (hd : ∀ id, d ≠ .spawned id) :
    d ∈ (modelJob sha256 m o c).deeds ↔ d ∈ (prepare sha256 m o c).deeds := by
  rw [modelJob]
  split
  · rfl
  · split
    · split
      · rfl
      · rw [List.mem_append]
        refine or_iff_left ?_
        split
        · intro h
          exact hd _ (List.mem_singleton.mp h)
        · exact List.not_mem_nil
    · rfl

/-- The sizes of the part file are those of the download. -/
theorem prepare_wrote {n : Nat} (h : Deed.wrote n ∈ (prepare sha256 m o c).deeds) :
    Deed.wrote n ∈ (fetch m o c).deeds := by
  have hsave : ∀ q : Progress, Deed.wrote n ∈ (saveReceipt m o c q).deeds →
      Deed.wrote n ∈ q.deeds := by
    intro q hq
    rw [saveReceipt] at hq
    split at hq
    · simpa using hq
    · exact hq
  have hrenamed : ∀ q : Progress, Deed.wrote n ∈ q.deeds ++ [Deed.renamed] →
      Deed.wrote n ∈ q.deeds := by
    intro q hq
    simpa using hq
  have hplace : ∀ q : Progress, Deed.wrote n ∈ (placeFile m c q).deeds →
      Deed.wrote n ∈ q.deeds := by
    intro q hq
    rw [placeFile] at hq
    dsimp only at hq
    split at hq
    · exact hq
    · split at hq
      · exact hq
      · split at hq
        · split at hq
          · exact hrenamed q hq
          · exact hrenamed q hq
        · exact hrenamed q hq
  have hverify : ∀ q : Progress, Deed.wrote n ∈ (verifyFile sha256 m o c q).deeds →
      Deed.wrote n ∈ q.deeds := by
    intro q hq
    rw [verifyFile] at hq
    dsimp only at hq
    split at hq
    · exact hq
    · split at hq
      · simpa using hq
      · split at hq
        · exact hq
        · exact hq
  rw [prepare] at h
  dsimp only at h
  split at h
  · have h := hsave _ h
    split at h
    · exact hverify _ (hplace _ h)
    · exact hverify _ h
  · exact h

/-! ## What counts as a reason -/

/-- A regular file of another size, and still the same file when it was looked at
again. -/
def SizeMismatch (m : AppModel) (c : JobCalls) : Prop :=
  ∃ s, c.before = some s ∧ c.after = some s ∧ s.regular = true ∧
    s.size.toInt ≠ m.bytes.toNat

/-- A regular file of the right size, read to its end, with another digest, and still the
same file when it was looked at again. -/
def HashMismatch (sha256 : Bytes → CStr) (m : AppModel) (c : JobCalls) : Prop :=
  ∃ s content, c.before = some s ∧ c.after = some s ∧ s.regular = true ∧
    s.size.toInt = m.bytes.toNat ∧ hashed c.hash = some content ∧ sha256 content ≠ m.sha256

/-- A job keeps what has been downloaded. What it removes is the file that it verifies, it
is not cancelled then, and one of the two reasons is there. When a download fails or is
cancelled, nothing happens but that the part file gets longer, and the part file is never
made larger than the model. -/
structure KeepsFiles (sha256 : Bytes → CStr) (m : AppModel) (o : Order) (c : JobCalls) :
    Prop where
  removed : ∀ f, Deed.unlinked f ∈ (modelJob sha256 m o c).deeds →
    f = o.verify ∧ c.stoppedBefore = false ∧ c.stoppedAtRemoval = false ∧
      (SizeMismatch m c ∨ HashMismatch sha256 m c)
  failed : o.download = true → ¬ Fetched m c.download ∨ c.stoppedBefore = true →
    ∀ f, Deed.unlinked f ∉ (modelJob sha256 m o c).deeds ∧
      Deed.renamed ∉ (modelJob sha256 m o c).deeds
  sizes : ∀ n, Deed.wrote n ∈ (modelJob sha256 m o c).deeds →
    n ≤ m.bytes.toNat ∧ ∀ s, c.download.found = some s → s.size.toInt ≤ n

/-- The file could be looked at and is a regular one; when its size is wrong, it is still
the same file the second time. -/
def Sighted (m : AppModel) (c : JobCalls) : Prop :=
  ∃ s, c.before = some s ∧ s.regular = true ∧
    (s.size.toInt = m.bytes.toNat ∨ c.after = some s)

theorem whole_iff {s : Stat} : s.whole m = true ↔
    s.regular = true ∧ s.size.toInt = m.bytes.toNat := by
  simp only [Stat.whole, Bool.and_eq_true, decide_eq_true_eq]
  constructor
  · rintro ⟨⟨hreg, _⟩, hsize⟩
    exact ⟨hreg, hsize⟩
  · rintro ⟨hreg, hsize⟩
    exact ⟨⟨hreg, by omega⟩, hsize⟩

theorem stamp_none_iff : modelStamp m c.before = none ↔
    ∀ s, c.before = some s → s.regular = true → s.size.toInt ≠ m.bytes.toNat := by
  rw [← Option.not_isSome_iff_eq_none, modelStamp_isSome]
  constructor
  · intro h s hs hreg hsize
    exact h ⟨s, hs, whole_iff.mpr ⟨hreg, hsize⟩⟩
  · rintro h ⟨s, hs, hw⟩
    exact h s hs (whole_iff.mp hw).1 (whole_iff.mp hw).2

/-- Where the digest of a file that has stayed as it was is wrong, there is a reason. -/
theorem digest_mismatch {d : CStr} (hstable : stable m c = true)
    (hd : digestOf sha256 m o c = some d) (hne : d ≠ m.sha256) : HashMismatch sha256 m c := by
  obtain ⟨s, hb, ha, hw⟩ := stable_iff.mp hstable
  rw [digestOf] at hd
  split at hd
  · cases hd
  · obtain ⟨content, hread, heq⟩ := Option.map_eq_some_iff.mp hd
    exact ⟨s, content, hb, ha, (whole_iff.mp hw).1, (whole_iff.mp hw).2, hread, heq ▸ hne⟩

theorem refused_reason (hs : Sighted m c) (h : Refused sha256 m o c) :
    SizeMismatch m c ∨ HashMismatch sha256 m c := by
  rcases h with hnone | ⟨hstable, d, hd, hne⟩
  · obtain ⟨s, hb, hreg, hsize⟩ := hs
    have hne := stamp_none_iff.mp hnone s hb hreg
    exact .inl ⟨s, hb, hsize.resolve_left hne, hreg, hne⟩
  · exact .inr (digest_mismatch hstable hd hne)

theorem reason_sighted (h : SizeMismatch m c ∨ HashMismatch sha256 m c) : Sighted m c := by
  rcases h with ⟨s, hb, ha, hreg, _⟩ | ⟨s, _, hb, ha, hreg, _⟩
  · exact ⟨s, hb, hreg, .inr ha⟩
  · exact ⟨s, hb, hreg, .inr ha⟩

/-- A job that gets no sight of the file has no stamp, so it takes its size for wrong. -/
theorem unsighted_stamp (hs : ¬ Sighted m c) : modelStamp m c.before = none := by
  rw [stamp_none_iff]
  intro s hb hreg hsize
  exact hs ⟨s, hb, hreg, .inl hsize⟩

end

/-- The job keeps what has been downloaded exactly when it has had sight of the file
whenever it comes to decide on it. -/
theorem model_job_keeps (sha256 : Bytes → CStr) (m : AppModel) (o : Order) (c : JobCalls) :
    KeepsFiles sha256 m o c ↔ (Decides m o c → Sighted m c) := by
  have hremoves : ∀ f, Deed.unlinked f ∈ (modelJob sha256 m o c).deeds ↔
      f = o.verify ∧ Decides m o c ∧ Refused sha256 m o c := by
    intro f
    rw [modelJob_deeds _ (fun id h => by cases h), prepare_removes]
  constructor
  · intro h hdecides
    by_contra hs
    have hrefused : Refused sha256 m o c := .inl (unsighted_stamp hs)
    obtain ⟨_, _, _, hreason⟩ := h.removed o.verify
      ((hremoves o.verify).mpr ⟨rfl, hdecides, hrefused⟩)
    exact hs (reason_sighted hreason)
  · intro h
    refine ⟨?_, ?_, ?_⟩
    · intro f hf
      obtain ⟨hname, hdecides, hrefused⟩ := (hremoves f).mp hf
      exact ⟨hname, hdecides.2.2.1, hdecides.2.2.2, refused_reason (h hdecides) hrefused⟩
    · intro hdownload hfail
      have hp : prepare sha256 m o c = fetch m o c := by
        rw [prepare]
        dsimp only
        refine if_neg ?_
        rw [Bool.and_eq_true, fetch_ok, Bool.not_eq_true']
        rintro ⟨⟨_, hfetched⟩, hstop⟩
        rcases hfail with hfail | hfail
        · exact hfail (hfetched hdownload)
        · rw [hfail] at hstop
          cases hstop
      have hnone : ∀ d, (∀ n, d ≠ Deed.wrote n) → (∀ id, d ≠ Deed.spawned id) →
          d ∉ (modelJob sha256 m o c).deeds := by
        intro d hwrote hspawned hd
        rw [modelJob_deeds _ hspawned, hp] at hd
        obtain ⟨n, _, hn⟩ := fetch_deeds hd
        exact hwrote n hn
      intro f
      constructor
      · exact hnone _ (fun n h => by cases h) (fun id h => by cases h)
      · exact hnone _ (fun n h => by cases h) (fun id h => by cases h)
    · intro n hn
      rw [modelJob_deeds _ (fun id h => by cases h)] at hn
      obtain ⟨n', hn', heq⟩ := fetch_deeds (prepare_wrote hn)
      cases heq
      exact downloadModel_sizes hn'

/-- A model that is there, and that the system does not let the job look at. -/
def unanswered : JobCalls where
  paths := true
  download :=
    { opened := .ok (), found := none, stream := true, atEnd := true, connected := true,
      transfer := ⟨[], true, 200, []⟩, flushed := true, synced := true, closed := true }
  before := none
  receipt := none
  stoppedBefore := false
  hash := { opened := true, started := true, reads := [], finished := true }
  after := none
  stoppedAtRemoval := false
  stoppedAtMessage := false
  verifiedFd := true
  unplaced := none
  renamed := .ok ()
  held := none
  placed := none
  final := none
  stoppedAtSave := false
  stoppedAtEnd := false
  stoppedAtActivity := false
  starts := true
  pid := true

/-- It is started, `lstat` fails, and it is removed. -/
theorem model_job_keeps_unanswered : ¬ ∀ (sha256 : Bytes → CStr) (m : AppModel) (o : Order)
    (c : JobCalls), KeepsFiles sha256 m o c := by
  intro h
  have hkeeps := h id ⟨[], List.replicate 64 48, 1, rfl⟩ ⟨false, true⟩ unanswered
  have hgone : Deed.unlinked .target ∈ (modelJob id ⟨[], List.replicate 64 48, 1, rfl⟩
      ⟨false, true⟩ unanswered).deeds := by decide +kernel
  obtain ⟨_, _, _, hreason⟩ := hkeeps.removed .target hgone
  rcases hreason with ⟨s, hs, _⟩ | ⟨s, _, hs, _⟩ <;> cases hs

end GeistServe.Proofs
