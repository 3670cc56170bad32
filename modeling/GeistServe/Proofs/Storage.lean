import GeistServe.App.Storage
import GeistServe.Proofs.Events

/-!
# The arena gives out sound blocks, and the buffer holds what was written

`app_alloc` computes with `size_t`. Where none of its checks fires, what it computes is
`bump` on natural numbers (`alloc_spec`); where one does, no block fits, since a sum that
overflows is beyond any capacity. So every sequence of requests is a sequence of `Granted`
blocks, whatever is written to the storage in between.

A buffer that has not failed holds the text of all writes so far, and a NUL. `app_quote` is
a sequence of the other two writers, and an overflow in the middle of it fails the buffer for
good, so it is enough to follow a list of pieces.
-/

namespace GeistServe.App

open GeistServe.Lib GeistServe.Geistd GeistServe.Json

/-! ## Arithmetic on sizes -/

theorem ckdMul_some {a b n : UInt64} (h : ckdMul a b = some n) :
    n.toNat = a.toNat * b.toNat := by
  unfold ckdMul at h
  split at h
  · next hlt =>
      cases h
      rw [UInt64.toNat_mul, Nat.mod_eq_of_lt hlt]
  · exact absurd h (by simp)

theorem ckdMul_none {a b : UInt64} (h : ckdMul a b = none) : 2 ^ 64 ≤ a.toNat * b.toNat := by
  unfold ckdMul at h
  split at h
  · exact absurd h (by simp)
  · next hle => exact Nat.le_of_not_lt hle

theorem ckdAdd_some {a b n : UInt64} (h : ckdAdd a b = some n) :
    n.toNat = a.toNat + b.toNat := by
  unfold ckdAdd at h
  split at h
  · next hlt =>
      cases h
      rw [UInt64.toNat_add, Nat.mod_eq_of_lt hlt]
  · exact absurd h (by simp)

theorem ckdAdd_none {a b : UInt64} (h : ckdAdd a b = none) : 2 ^ 64 ≤ a.toNat + b.toNat := by
  unfold ckdAdd at h
  split at h
  · exact absurd h (by simp)
  · next hle => exact Nat.le_of_not_lt hle

/-- Clearing the low bits. -/
theorem and_high_bits {x k w : Nat} (hx : x < 2 ^ w) (hk : k ≤ w) :
    x &&& (2 ^ w - (2 ^ k - 1 + 1)) = x / 2 ^ k * 2 ^ k := by
  have hpos : 0 < 2 ^ k := Nat.two_pow_pos k
  have hle : 2 ^ k ≤ 2 ^ w := Nat.pow_le_pow_right (by decide) hk
  refine Nat.eq_of_testBit_eq fun i => ?_
  rw [Nat.testBit_and, Nat.testBit_two_pow_sub_succ (by omega), Nat.testBit_two_pow_sub_one,
    Nat.testBit_mul_two_pow]
  rcases Nat.lt_or_ge i k with hi | hi
  · have hno : ¬ k ≤ i := by omega
    simp [hi, hno]
  · have hno : ¬ i < k := by omega
    have hbit : (x / 2 ^ k).testBit (i - k) = x.testBit i := by
      rw [Nat.testBit_div_two_pow, Nat.sub_add_cancel hi]
    rcases Nat.lt_or_ge i w with hw | hw
    · simp [hi, hno, hw, hbit]
    · have hx' : x.testBit i = false :=
        Nat.testBit_lt_two_pow (Nat.lt_of_lt_of_le hx (Nat.pow_le_pow_right (by decide) hw))
      simp [hbit, hx']

/-- `start & ~(alignment - 1)`. -/
theorem mask_toNat {start al : UInt64} (hal : al.toNat.isPowerOfTwo) :
    (start &&& ~~~(al - 1)).toNat = start.toNat / al.toNat * al.toNat := by
  obtain ⟨k, hk⟩ := hal
  have hlt := al.toNat_lt
  have hpos : 0 < al.toNat := by
    rw [hk]
    exact Nat.two_pow_pos k
  have hone : (1 : UInt64) ≤ al := UInt64.le_iff_toNat_le.mpr hpos
  have hpred : (al - 1).toNat = 2 ^ k - 1 := by
    rw [UInt64.toNat_sub_of_le _ _ hone, hk]
    rfl
  have hkw : k ≤ 64 := by
    rw [hk] at hlt
    exact Nat.le_of_lt ((Nat.pow_lt_pow_iff_right (by decide)).mp hlt)
  rw [UInt64.toNat_and, UInt64.toNat_not, hpred, hk, ← and_high_bits start.toNat_lt hkw]
  congr 1
  show 2 ^ 64 - 1 - (2 ^ k - 1) = _
  omega

/-- What the guard of `app_alloc` lets through. -/
theorem guard_iff (al : UInt64) :
    ¬ (al = 0 ∨ al &&& (al - 1) ≠ 0) ↔ al.toNat.isPowerOfTwo := by
  rw [← Nat.ne_zero_and_sub_one_eq_zero_iff_isPowerOfTwo, not_or, not_not]
  have hzero : al = 0 ↔ al.toNat = 0 := by
    rw [← UInt64.toNat_inj]
    rfl
  rw [hzero]
  refine and_congr_right fun hne => ?_
  have hone : (1 : UInt64) ≤ al := UInt64.le_iff_toNat_le.mpr (Nat.pos_of_ne_zero hne)
  rw [← UInt64.toNat_inj, UInt64.toNat_and, UInt64.toNat_sub_of_le _ _ hone]
  rfl

/-! ## One request -/

/-- The block that a request comes to over the natural numbers. -/
def Arena.fitting (maxAlign : UInt64) (a : Arena) (count size alignment : UInt64) : Option Block :=
  if alignment.toNat.isPowerOfTwo ∧ alignment ≤ maxAlign then
    bump a.cap.toNat a.used.toNat alignment.toNat (count.toNat * size.toNat)
  else none

theorem bump_none {cap used al n : Nat} (h : cap < roundUp used al + n) :
    bump cap used al n = none := if_neg (by omega)

/-- The checks of `app_alloc` refuse what does not fit, and nothing else. -/
theorem alloc_eq (maxAlign : UInt64) (a : Arena) (count size alignment : UInt64) :
    a.alloc maxAlign count size alignment =
      match a.fitting maxAlign count size alignment with
      | none => some (none, a)
      | some b => ({ a with used := UInt64.ofNat b.stop }.clear b.start b.size).map
          (some (UInt64.ofNat b.start), ·) := by
  have hcap := a.cap.toNat_lt
  by_cases hpow : alignment.toNat.isPowerOfTwo
  case neg =>
    have hguard : alignment = 0 ∨ alignment &&& (alignment - 1) ≠ 0 := by
      by_contra hno
      exact hpow ((guard_iff alignment).mp hno)
    rw [Arena.alloc, if_pos (by rw [← or_assoc]; exact .inl hguard), Arena.fitting,
      if_neg (fun h => hpow h.1)]
  by_cases hmax : alignment ≤ maxAlign
  case neg =>
    rw [Arena.alloc, if_pos (.inr (.inr (UInt64.not_le.mp hmax))), Arena.fitting,
      if_neg (fun h => hmax h.2)]
  have hguard := (guard_iff alignment).mpr hpow
  have hpos := Nat.pos_of_isPowerOfTwo hpow
  have hone : (1 : UInt64) ≤ alignment := UInt64.le_iff_toNat_le.mpr hpos
  have hpred : (alignment - 1).toNat = alignment.toNat - 1 := UInt64.toNat_sub_of_le _ _ hone
  have hdvd : alignment.toNat ∣ 2 ^ 64 := by
    obtain ⟨k, hk⟩ := hpow
    have hlt := alignment.toNat_lt
    rw [hk] at hlt ⊢
    exact Nat.pow_dvd_pow 2 (Nat.le_of_lt ((Nat.pow_lt_pow_iff_right (by decide)).mp hlt))
  rw [Arena.alloc, if_neg (by
    rw [← or_assoc, not_or]
    exact ⟨hguard, UInt64.not_lt.mpr hmax⟩), Arena.fitting, if_pos ⟨hpow, hmax⟩]
  cases hn : ckdMul count size with
  | none =>
      have hlarge := ckdMul_none hn
      rw [bump_none (by omega)]
  | some n =>
      have hn' := ckdMul_some hn
      simp only []
      cases hs : ckdAdd a.used (alignment - 1) with
      | none =>
          -- the rounded mark is beyond every address, since the alignment divides 2^64
          have hlarge := ckdAdd_none hs
          rw [hpred] at hlarge
          have hup := roundUp_of_le hpos hdvd hlarge
          rw [bump_none (by omega)]
      | some s =>
          have hs' := ckdAdd_some hs
          have hstart : (s &&& ~~~(alignment - 1)).toNat = roundUp a.used.toNat alignment.toNat := by
            rw [mask_toNat hpow, hs', hpred]
            rfl
          simp only []
          cases he : ckdAdd (s &&& ~~~(alignment - 1)) n with
          | none =>
              have hlarge := ckdAdd_none he
              rw [hstart, hn'] at hlarge
              rw [bump_none (by omega)]
          | some stop =>
              have he' := ckdAdd_some he
              rw [hstart, hn'] at he'
              simp only [gt_iff_lt, UInt64.lt_iff_toNat_lt, he', bump]
              by_cases hfits : roundUp a.used.toNat alignment.toNat + count.toNat * size.toNat ≤
                  a.cap.toNat
              · rw [if_neg (by omega), if_pos hfits]
                have hstop : stop = UInt64.ofNat
                    (Block.mk (roundUp a.used.toNat alignment.toNat)
                      (count.toNat * size.toNat)).stop := by
                  rw [← UInt64.toNat_inj, he', UInt64.toNat_ofNat_of_lt']
                  · rfl
                  · exact Nat.lt_of_le_of_lt hfits hcap
                simp only [hstart, hn', ← hstop]
                rw [← hstart, UInt64.ofNat_toNat]
              · rw [if_pos (by omega), if_neg hfits]

theorem fitting_some {maxAlign : UInt64} {a : Arena} {count size alignment : UInt64} {b : Block}
    (h : a.fitting maxAlign count size alignment = some b) :
    (alignment.toNat.isPowerOfTwo ∧ alignment ≤ maxAlign) ∧ b.size = count.toNat * size.toNat ∧
      alignment.toNat ∣ b.start ∧ a.used.toNat ≤ b.start ∧ b.stop ≤ a.cap.toNat := by
  unfold Arena.fitting at h
  split at h
  · next hal => exact ⟨hal, bump_some h (Nat.pos_of_isPowerOfTwo hal.1)⟩
  · exact absurd h (by simp)

/-- The arena after a block has been given out: the block is zero, and nothing else has
changed. -/
structure Gave (a : Arena) (b : Block) (a' : Arena) : Prop where
  base : a'.base = a.base
  cap : a'.cap = a.cap
  used : a'.used.toNat = b.stop
  zeroed : ∀ i ∈ b.places, a'.storage[i]? = some 0
  rest : ∀ i ∉ b.places, a'.storage[i]? = a.storage[i]?

theorem clear_gave {a : Arena} {b : Block} (h : b.stop ≤ a.cap.toNat) :
    ∃ a', { a with used := UInt64.ofNat b.stop }.clear b.start b.size = some a' ∧ Gave a b a' := by
  have hcap := a.cap.toNat_lt
  have hroom : b.start + (List.replicate b.size (0 : UInt8)).length ≤ a.storage.length := by
    rw [List.length_replicate, a.whole]
    exact h
  unfold Arena.clear
  split
  · next hnone =>
      rw [show store a.storage _ _ = _ from store_fits hroom] at hnone
      exact absurd hnone (by simp)
  · next m hstore =>
      have hstore : store a.storage b.start (List.replicate b.size 0) = some m := hstore
      refine ⟨_, rfl, rfl, rfl, UInt64.toNat_ofNat_of_lt' (Nat.lt_of_le_of_lt h hcap),
        fun i hi => ?_, fun i hi => ?_⟩
      · obtain ⟨hstart, hstop⟩ := hi
        have hin : i - b.start < b.size := by
          have hsum : b.stop = b.start + b.size := rfl
          omega
        have hread := congrArg (·[i - b.start]?) (store_read hstore)
        simp only [List.length_replicate, List.getElem?_take_of_lt hin, List.getElem?_drop,
          Nat.add_sub_cancel' hstart, List.getElem?_replicate_of_lt hin] at hread
        exact hread
      · refine store_outside hstore ?_
        rw [List.length_replicate]
        by_contra hno
        rw [not_or, Nat.not_lt, Nat.not_le] at hno
        exact hi hno

/-! ## Every sequence of requests -/

/-- What came of a request on an arena with this base and capacity: a block that is aligned,
in range, zero and apart from what was used before, or an arena as before. -/
structure Asked.Sound (maxAlign : UInt64) (base cap : Nat) (q : Asked) : Prop where
  place : q.before.base = base ∧ q.before.cap.toNat = cap
  refused : q.got = none → q.after = q.before
  granted : ∀ b, q.block? = some b → b.size = q.count.toNat * q.size.toNat ∧
    b.stop ≤ cap ∧ q.alignment.toNat ∣ base + b.start ∧ Gave q.before b q.after
  exactly : q.block? = q.before.fitting maxAlign q.count q.size q.alignment

def Use.request? : Use → Option (UInt64 × UInt64 × UInt64)
  | .alloc count size alignment => some (count, size, alignment)
  | .write _ _ => none

/-- One request. -/
theorem alloc_sound {maxAlign : UInt64} {a : Arena} (hmax : maxAlign.toNat.isPowerOfTwo)
    (hbase : maxAlign.toNat ∣ a.base) (count size alignment : UInt64) :
    ∃ got a', a.alloc maxAlign count size alignment = some (got, a') ∧
      Asked.Sound maxAlign a.base a.cap.toNat ⟨a, count, size, alignment, got, a'⟩ ∧
      Granted a.cap.toNat a.used.toNat (Asked.block? ⟨a, count, size, alignment, got, a'⟩).toList
        a'.used.toNat ∧
      a'.base = a.base ∧ a'.cap = a.cap := by
  rw [alloc_eq]
  cases hfit : a.fitting maxAlign count size alignment with
  | none =>
      refine ⟨none, a, rfl, ⟨⟨rfl, rfl⟩, fun _ => rfl, fun b hb => ?_, hfit.symm⟩, .none _, rfl, rfl⟩
      exact absurd hb (by simp [Asked.block?])
  | some b =>
      obtain ⟨hal, hsize, hdvd, hused, hstop⟩ := fitting_some hfit
      obtain ⟨a', hclear, hgave⟩ := clear_gave hstop
      have hcap := a.cap.toNat_lt
      have hstart : b.start ≤ b.stop := Nat.le_add_right _ _
      have hblock : Asked.block? ⟨a, count, size, alignment, some (UInt64.ofNat b.start), a'⟩ =
          some b := by
        have hnat : (UInt64.ofNat b.start).toNat = b.start :=
          UInt64.toNat_ofNat_of_lt' (show b.start < 2 ^ 64 by omega)
        show some (Block.mk (UInt64.ofNat b.start).toNat (count.toNat * size.toNat)) = some b
        rw [hnat, ← hsize]
      refine ⟨some (UInt64.ofNat b.start), a', by simp only [hclear, Option.map_some],
        ⟨⟨rfl, rfl⟩, fun h => absurd h (by simp), fun c hc => ?_, hblock.trans hfit.symm⟩, ?_,
        hgave.base, hgave.cap⟩
      · rw [hblock] at hc
        cases hc
        have hpow : alignment.toNat ∣ maxAlign.toNat := by
          obtain ⟨k, hk⟩ := hal.1
          obtain ⟨m, hm⟩ := hmax
          have hle := UInt64.le_iff_toNat_le.mp hal.2
          rw [hk, hm] at hle ⊢
          exact Nat.pow_dvd_pow 2 ((Nat.pow_le_pow_iff_right (by decide)).mp hle)
        exact ⟨hsize, hstop, Nat.dvd_add (Nat.dvd_trans hpow hbase) hdvd, hgave⟩
      · rw [hblock, hgave.used]
        exact .next hused hstop (.none _)

/-- A run has a result, and each of its blocks is behind the ones before it. -/
theorem run_granted {maxAlign : UInt64} (hmax : maxAlign.toNat.isPowerOfTwo) (uses : List Use) :
    ∀ {a : Arena}, maxAlign.toNat ∣ a.base → ∃ a' log, a.run maxAlign uses = some (a', log) ∧
      log.map (fun q => (q.count, q.size, q.alignment)) = uses.filterMap Use.request? ∧
      (∀ q ∈ log, q.Sound maxAlign a.base a.cap.toNat) ∧
      Granted a.cap.toNat a.used.toNat (log.filterMap Asked.block?) a'.used.toNat := by
  induction uses with
  | nil => exact fun {a} _ => ⟨a, [], rfl, rfl, fun q hq => absurd hq List.not_mem_nil, .none _⟩
  | cons u uses ih =>
      intro a hbase
      cases u with
      | write i b =>
          obtain ⟨a', log, hrun, hreq, hsound, hgranted⟩ := ih (a := a.write i b) hbase
          exact ⟨a', log, hrun, hreq, hsound, hgranted⟩
      | alloc count size alignment =>
          obtain ⟨got, a₁, halloc, hq, hone, hbase', hcap'⟩ := alloc_sound hmax hbase count size
            alignment
          obtain ⟨a', log, hrun, hreq, hsound, hgranted⟩ := ih (a := a₁) (by rw [hbase']; exact hbase)
          rw [hbase', hcap'] at hsound
          rw [hcap'] at hgranted
          refine ⟨a', ⟨a, count, size, alignment, got, a₁⟩ :: log, ?_, ?_, ?_, ?_⟩
          · rw [Arena.run, halloc]
            show (a₁.run maxAlign uses).map _ = _
            rw [hrun]
            rfl
          · rw [List.map_cons, hreq]
            rfl
          · intro q hmem
            rcases List.mem_cons.mp hmem with rfl | hmem
            · exact hq
            · exact hsound q hmem
          · have happ := hone.append hgranted
            rw [List.filterMap_cons]
            cases hb : Asked.block? ⟨a, count, size, alignment, got, a₁⟩ with
            | none =>
                rw [hb] at happ
                exact happ
            | some b =>
                rw [hb] at happ
                exact happ

/-- Whatever is asked for, and whatever the holders write in between: the blocks are in
range, aligned, zero when they are given out and pairwise disjoint, no other byte is touched, and
a request is refused, with the arena as before, exactly if its alignment is none or it does not
fit. -/
theorem alloc_blocks_sound {maxAlign : UInt64} (hmax : maxAlign.toNat.isPowerOfTwo) (a : Arena)
    (hbase : maxAlign.toNat ∣ a.base) (uses : List Use) :
    ∃ a' log, a.run maxAlign uses = some (a', log) ∧
      log.map (fun q => (q.count, q.size, q.alignment)) = uses.filterMap Use.request? ∧
      (∀ q ∈ log, q.Sound maxAlign a.base a.cap.toNat) ∧
      (log.filterMap Asked.block?).Pairwise fun b c => Disjoint b.places c.places := by
  obtain ⟨a', log, hrun, hreq, hsound, hgranted⟩ := run_granted hmax uses hbase
  exact ⟨a', log, hrun, hreq, hsound, hgranted.disjoint⟩

/-- Two blocks are granted, and three requests refused. -/
def small : Arena :=
  { base := 4096, cap := 64, storage := List.replicate 64 170, whole := rfl }

def smallUses : List Use :=
  [.alloc 1 3 1, .alloc 2 8 8, .write 0 7, .alloc (0 - 1) 2 1, .alloc 1 64 1, .alloc 1 1 3]

theorem alloc_blocks_sound_small :
    ∃ a' log, small.run 16 smallUses = some (a', log) ∧
      log.map (fun q => (q.count, q.size, q.alignment)) = smallUses.filterMap Use.request? ∧
      (∀ q ∈ log, q.Sound 16 4096 64) ∧
      (log.filterMap Asked.block?).Pairwise fun b c => Disjoint b.places c.places :=
  alloc_blocks_sound ⟨4, rfl⟩ small (by decide) smallUses

example : (small.run 16 smallUses).map (fun r => r.2.map Asked.got) =
    some [some 0, some 8, none, none, none] := by decide +kernel

/-! ## One write to a buffer -/

/-- A write of `text` from `b` on. It fails what is failed, what does not print and what does
not fit; else the text and a NUL are behind what was there. -/
structure Wrote (b : RawBuffer) (ok : Bool) (text : Bytes) (b' : RawBuffer) : Prop where
  cap : b'.cap = b.cap
  len_lt : b'.len < b.cap
  failed : b'.failed = false ↔ b.failed = false ∧ ok = true ∧ b.len + text.length < b.cap
  len : b'.failed = false → b'.len = b.len + text.length
  data : b'.failed = false → b'.data.take (b'.len + 1) = b.data.take b.len ++ text ++ [0]
  stuck : b.failed = true → b' = b

/-- The text, without the NUL. -/
theorem Wrote.text {b b' : RawBuffer} {ok : Bool} {t : Bytes} (h : Wrote b ok t b')
    (hf : b'.failed = false) : b'.data.take b'.len = b.data.take b.len ++ t := by
  have htake := congrArg (List.take b'.len) (h.data hf)
  have hlength : (b.data.take b.len ++ t).length = b'.len := by
    have hall := congrArg List.length (h.data hf)
    have hlt := h.len_lt
    rw [List.length_take, List.length_append, List.length_singleton, b'.whole, h.cap,
      Nat.min_eq_left (by omega)] at hall
    omega
  rw [List.take_take, Nat.min_eq_left (Nat.le_succ _), List.take_append_of_le_length
    (Nat.le_of_eq hlength.symm), List.take_of_length_le (Nat.le_of_eq hlength)] at htake
  exact htake

theorem fail_of_failed {b : RawBuffer} (h : b.failed = true) : b.fail = b := by
  obtain ⟨data, len, cap, failed, whole, cap_lt⟩ := b
  cases h
  rfl

theorem fail_wrote {b : RawBuffer} {ok : Bool} {text : Bytes} (hlen : b.len < b.cap)
    (h : b.failed = true ∨ ok = false ∨ b.cap ≤ b.len + text.length) : Wrote b ok text b.fail where
  cap := rfl
  len_lt := hlen
  failed := by
    refine ⟨fun hf => absurd hf (by simp [RawBuffer.fail]), fun ⟨hf, hok, hroom⟩ => ?_⟩
    rcases h with h | h | h
    · exact absurd (hf.symm.trans h) (by decide)
    · exact absurd (hok.symm.trans h) (by decide)
    · omega
  len hf := absurd hf (by simp [RawBuffer.fail])
  data hf := absurd hf (by simp [RawBuffer.fail])
  stuck := fail_of_failed

theorem copy_fits {b : RawBuffer} (xs : Bytes) (h : b.len + xs.length ≤ b.cap) :
    ∃ b', b.copy xs = some b' ∧ store b.data b.len xs = some b'.data ∧ b'.len = b.len ∧
      b'.cap = b.cap ∧ b'.failed = b.failed := by
  unfold RawBuffer.copy
  split
  · next hnone =>
      rw [store_fits (by rw [b.whole]; exact h)] at hnone
      exact absurd hnone (by simp)
  · next m hstore => exact ⟨_, rfl, hstore, rfl, rfl, rfl⟩

/-- The text has been copied behind `len`, with a NUL, and `len` moves over it. -/
theorem copied_wrote {b b' : RawBuffer} {text : Bytes} (hb : b.failed = false)
    (hroom : b.len + text.length < b.cap) (hstore : store b.data b.len (text ++ [0]) = some b'.data)
    (hcap : b'.cap = b.cap) (hf : b'.failed = b.failed) :
    Wrote b true text { b' with len := b.len + text.length } where
  cap := hcap
  len_lt := hroom
  failed := by
    show b'.failed = false ↔ _
    rw [hf]
    exact ⟨fun h => ⟨h, rfl, hroom⟩, fun h => h.1⟩
  len _ := rfl
  data _ := by
    have hwritten := store_written hstore
    rw [List.length_append, ← Nat.add_assoc] at hwritten
    rw [List.append_assoc]
    exact hwritten
  stuck h := absurd (hb.symm.trans h) (by decide)

theorem put_wrote {b : RawBuffer} (s : Bytes) (hlen : b.len < b.cap) :
    ∃ b', b.put s = some b' ∧ Wrote b true (cstr s) b' := by
  have hcap := b.cap_lt
  unfold RawBuffer.put
  simp only []
  split
  · next h =>
      refine ⟨_, rfl, fail_wrote hlen ?_⟩
      rcases h with h | h | h
      · exact .inl h
      · exact .inr (.inr (by omega))
      · exact .inr (.inr h)
  · next h =>
      rw [not_or, not_or, Nat.not_le, Nat.not_le, Bool.not_eq_true] at h
      obtain ⟨hb, -, hroom⟩ := h
      have hlength : ((cstr s) ++ [0]).length = (cstr s).length + 1 := List.length_append
      obtain ⟨b', hcopy, hstore, hl, hc, hf⟩ := copy_fits (b := b) (cstr s ++ [0])
        (by rw [hlength]; omega)
      refine ⟨_, by rw [hcopy]; rfl, ?_⟩
      simp only [hl]
      exact copied_wrote hb hroom hstore hc hf

theorem printf_wrote {b : RawBuffer} (p : Printed) (hlen : b.len < b.cap) :
    ∃ b', b.printf p = some b' ∧ Wrote b p.ok p.text b' := by
  unfold RawBuffer.printf
  split
  · next h =>
      refine ⟨_, rfl, fail_wrote hlen ?_⟩
      rcases h with h | h
      · exact .inl h
      · omega
  · next h =>
      rw [not_or, Bool.not_eq_true] at h
      have hlength : (p.text.take (b.cap - b.len - 1) ++ [0]).length =
          min (b.cap - b.len - 1) p.text.length + 1 := by
        rw [List.length_append, List.length_take]
        rfl
      obtain ⟨b', hcopy, hstore, hl, hc, hf⟩ := copy_fits (b := b)
        (p.text.take (b.cap - b.len - 1) ++ [0]) (by rw [hlength]; omega)
      rw [hcopy, Option.map_some]
      by_cases hok : p.ok ∧ p.text.length < b'.cap - b'.len
      · have hroom := hok.2
        rw [hc, hl] at hroom
        refine ⟨_, rfl, ?_⟩
        rw [List.take_of_length_le (by omega)] at hstore
        rw [if_pos hok, hl, hok.1]
        exact copied_wrote h.1 (by omega) hstore hc hf
      · refine ⟨_, rfl, ?_⟩
        rw [if_neg hok]
        refine ⟨hc, by rw [show b'.fail.len = b'.len from rfl, hl]; exact hlen, ?_,
          fun hno => absurd hno (by simp [RawBuffer.fail]),
          fun hno => absurd hno (by simp [RawBuffer.fail]),
          fun hno => absurd (h.1.symm.trans hno) (by decide)⟩
        refine ⟨fun hno => absurd hno (by simp [RawBuffer.fail]), fun ⟨_, hp, hroom⟩ => ?_⟩
        exact absurd ⟨hp, by omega⟩ hok

theorem Wrote.trans {b b' b'' : RawBuffer} {ok ok' : Bool} {t t' : Bytes} (h : Wrote b ok t b')
    (h' : Wrote b' ok' t' b'') : Wrote b (ok && ok') (t ++ t') b'' where
  cap := h'.cap.trans h.cap
  len_lt := h.cap ▸ h'.len_lt
  failed := by
    rw [h'.failed, h.failed, h.cap, Bool.and_eq_true, List.length_append]
    constructor
    · rintro ⟨⟨hb, hok, hroom⟩, hok', hroom'⟩
      have hl := h.len (h.failed.mpr ⟨hb, hok, hroom⟩)
      exact ⟨hb, ⟨hok, hok'⟩, by omega⟩
    · rintro ⟨hb, ⟨hok, hok'⟩, hroom⟩
      have hl := h.len (h.failed.mpr ⟨hb, hok, by omega⟩)
      exact ⟨⟨hb, hok, by omega⟩, hok', by omega⟩
  len hf := by
    have hf' := (h'.failed.mp hf).1
    rw [h'.len hf, h.len hf', List.length_append, Nat.add_assoc]
  data hf := by
    have hf' := (h'.failed.mp hf).1
    rw [h'.data hf, h.text hf', List.append_assoc (b.data.take b.len)]
  stuck hb := by
    have hb' := h.stuck hb
    rw [h'.stuck (hb' ▸ hb), hb']

/-- One write after the other. -/
theorem foldlM_wrote {β : Type} {f : RawBuffer → β → Option RawBuffer} (ok : β → Bool)
    (text : β → Bytes)
    (hf : ∀ b x, b.len < b.cap → ∃ b', f b x = some b' ∧ Wrote b (ok x) (text x) b') (xs : List β) :
    ∀ {b₀ b : RawBuffer} {ok₀ : Bool} {t : Bytes}, Wrote b₀ ok₀ t b →
      ∃ b', xs.foldlM f b = some b' ∧ Wrote b₀ (ok₀ && xs.all ok) (t ++ xs.flatMap text) b' := by
  induction xs with
  | nil =>
      intro b₀ b ok₀ t h
      refine ⟨b, rfl, ?_⟩
      rw [List.all_nil, Bool.and_true, List.flatMap_nil, List.append_nil]
      exact h
  | cons x xs ih =>
      intro b₀ b ok₀ t h
      obtain ⟨b₁, hone, hw⟩ := hf b x (h.cap ▸ h.len_lt)
      obtain ⟨b', hrest, hw'⟩ := ih (h.trans hw)
      refine ⟨b', ?_, ?_⟩
      · rw [List.foldlM_cons, hone]
        exact hrest
      · rw [List.all_cons, List.flatMap_cons, ← Bool.and_assoc, ← List.append_assoc]
        exact hw'

theorem cstr_byte {c : UInt8} (h : c ≠ 0) : cstr [c, 0] = [c] := by
  simp [cstr, h]

theorem quoteByte_wrote (b : RawBuffer) (c : UInt8) (hlen : b.len < b.cap) :
    ∃ b', b.quoteByte c = some b' ∧ Wrote b true (gdEscape c) b' := by
  unfold RawBuffer.quoteByte gdEscape
  by_cases hq : c = 34 ∨ c = 92
  · rw [if_pos hq, if_pos hq]
    exact printf_wrote { text := [92, c] } hlen
  · rw [if_neg hq, if_neg hq]
    by_cases hlow : c < 32
    · rw [if_pos hlow, if_pos hlow]
      exact printf_wrote { text := unicodeEscape c } hlen
    · rw [if_neg hlow, if_neg hlow]
      have hput := put_wrote [c, 0] hlen
      rw [cstr_byte (by rintro rfl; exact hlow (by decide))] at hput
      exact hput

theorem quote_wrote {b : RawBuffer} (s : Bytes) (hlen : b.len < b.cap) :
    ∃ b', b.quote s = some b' ∧ Wrote b true (gdPutJson (cstr s)) b' := by
  obtain ⟨b₁, hopen, h₁⟩ := put_wrote [34] hlen
  obtain ⟨b₂, hbytes, h₂⟩ := foldlM_wrote (fun _ => true) gdEscape quoteByte_wrote (cstr s) h₁
  obtain ⟨b₃, hclose, h₃⟩ := put_wrote [34] (h₂.cap ▸ h₂.len_lt)
  refine ⟨b₃, ?_, ?_⟩
  · rw [RawBuffer.quote, hopen]
    show ((cstr s).foldlM RawBuffer.quoteByte b₁ >>= _) = _
    rw [hbytes]
    exact hclose
  · have h := h₂.trans h₃
    rw [show (cstr s).all (fun _ => true) = true from List.all_eq_true.mpr fun _ _ => rfl] at h
    exact h

/-! ## Every sequence of writes -/

/-- What a write adds to the buffer. -/
def Write.text : Write → Bytes
  | .put s => cstr s
  | .printf p => p.text
  | .quote s => gdPutJson (cstr s)

/-- The write has a text: `vsnprintf` printed it. -/
def Write.ok : Write → Bool
  | .printf p => p.ok
  | _ => true

theorem write_wrote (b : RawBuffer) (w : Write) (hlen : b.len < b.cap) :
    ∃ b', b.write w = some b' ∧ Wrote b w.ok w.text b' := by
  cases w with
  | put s => exact put_wrote s hlen
  | printf p => exact printf_wrote p hlen
  | quote s => exact quote_wrote s hlen

/-- A failed buffer stays as it is. -/
theorem run_failed {b : RawBuffer} (hb : b.failed = true) (hlen : b.len < b.cap) (ws : List Write) :
    b.run ws = some b := by
  induction ws with
  | nil => rfl
  | cons w ws ih =>
      obtain ⟨b', hw, hwrote⟩ := write_wrote b w hlen
      cases hwrote.stuck hb
      rw [RawBuffer.run, List.foldlM_cons, hw]
      exact ih

/-! The `Buffer` that the answers of the app are put together in is this buffer, without the
cells behind its text. -/

structure Holds (b : RawBuffer) (v : Buffer) : Prop where
  cap : v.cap = b.cap
  failed : v.failed = b.failed
  data : b.failed = false → v.data = b.data.take b.len
  len_lt : b.len < b.cap

theorem put_room {v : Buffer} {s : Bytes} (h : (v.put s).failed = false) :
    (v.put s).data.length < (v.put s).cap := by
  unfold Buffer.put at h ⊢
  split at h
  · exact absurd h (by simp)
  · next hroom =>
      rw [not_or, Nat.not_le] at hroom
      rw [if_neg (by rw [not_or, Nat.not_le]; exact hroom)]
      show (v.data ++ s).length < v.cap
      rw [List.length_append]
      exact hroom.2

theorem Holds.written {b b' : RawBuffer} {v v' : Buffer} {text : Bytes} (h : Holds b v)
    (hb : Wrote b true text b') (hv : Proofs.Writes v v' text)
    (hroom : v'.failed = false → v'.data.length < v'.cap) : Holds b' v' where
  cap := by rw [hv.cap, h.cap, hb.cap]
  failed := by
    have hlength : b.failed = false → v.data.length = b.len := by
      intro hf
      rw [h.data hf, List.length_take, b.whole, Nat.min_eq_left (Nat.le_of_lt h.len_lt)]
    have hiff : v'.failed = false ↔ b'.failed = false := by
      rw [hb.failed]
      constructor
      · intro hf
        obtain ⟨hvf, hdata⟩ := hv.data hf
        have hbf := h.failed ▸ hvf
        have hfits := hroom hf
        rw [hdata, List.length_append, hlength hbf, hv.cap, h.cap] at hfits
        exact ⟨hbf, rfl, hfits⟩
      · rintro ⟨hbf, -, hfits⟩
        refine hv.fits (h.failed.trans hbf) ?_
        rw [hlength hbf, h.cap]
        exact hfits
    cases hv' : v'.failed <;> cases hb' : b'.failed
    · rfl
    · exact absurd ((hiff.mp hv').symm.trans hb') (by decide)
    · exact absurd ((hiff.mpr hb').symm.trans hv') (by decide)
    · rfl
  data := by
    intro hf
    have hbf := (hb.failed.mp hf).1
    have hvf : v'.failed = false := by
      refine hv.fits (h.failed.trans hbf) ?_
      rw [h.data hbf, List.length_take, b.whole, Nat.min_eq_left (Nat.le_of_lt h.len_lt), h.cap]
      exact (hb.failed.mp hf).2.2
    rw [(hv.data hvf).2, h.data hbf, hb.text hf]
  len_lt := hb.cap ▸ hb.len_lt

theorem Holds.put {b : RawBuffer} {v : Buffer} (h : Holds b v) (s : Bytes) :
    ∃ b', b.put s = some b' ∧ Holds b' (v.put (cstr s)) := by
  obtain ⟨b', hput, hwrote⟩ := put_wrote s h.len_lt
  exact ⟨b', hput, h.written hwrote (Proofs.writes_put v (cstr s)) put_room⟩

theorem Holds.printf {b : RawBuffer} {v : Buffer} (h : Holds b v) {p : Printed} (hp : p.ok = true) :
    ∃ b', b.printf p = some b' ∧ Holds b' (v.put p.text) := by
  obtain ⟨b', hput, hwrote⟩ := printf_wrote p h.len_lt
  rw [hp] at hwrote
  exact ⟨b', hput, h.written hwrote (Proofs.writes_put v p.text) put_room⟩

theorem Holds.quote {b : RawBuffer} {v : Buffer} (h : Holds b v) (s : Bytes) :
    ∃ b', b.quote s = some b' ∧ Holds b' (v.quote (cstr s)) := by
  obtain ⟨b', hquote, hwrote⟩ := quote_wrote s h.len_lt
  exact ⟨b', hquote, h.written hwrote (Proofs.writes_quote v (cstr s)) put_room⟩

/-- Every sequence of writes to a buffer of any capacity but 0: no byte outside of it is
written; a buffer that has failed stays as it is; it fails exactly if a text was not printed or
all texts together do not fit with their NUL; and else it holds all of them, and the NUL. -/
theorem buffer_holds_writes (data : Bytes) (hcap : 0 < data.length) (hsize : data.length < 2 ^ 64)
    (ws : List Write) :
    ∃ b, (RawBuffer.on data hsize).run ws = some b ∧ b.cap = data.length ∧ b.len < b.cap ∧
      (b.failed = true → ∀ more, b.run more = some b) ∧
      (b.failed = false ↔ (∀ w ∈ ws, w.ok = true) ∧ (ws.flatMap Write.text).length < data.length) ∧
      (b.failed = false → b.len = (ws.flatMap Write.text).length ∧
        (ws ≠ [] → b.data.take (b.len + 1) = ws.flatMap Write.text ++ [0])) ∧
      ∀ w, ∃ b', b.write w = some b' ∧ (b'.failed = false ↔
        b.failed = false ∧ w.ok = true ∧ b.len + w.text.length < b.cap) := by
  cases ws with
  | nil =>
      refine ⟨_, rfl, rfl, hcap, fun hf => absurd hf (by simp [RawBuffer.on]),
        ⟨fun _ => ⟨fun w hw => absurd hw List.not_mem_nil, hcap⟩, fun _ => rfl⟩,
        fun _ => ⟨rfl, fun hne => absurd rfl hne⟩, fun w => ?_⟩
      obtain ⟨b', hw, hwrote⟩ := write_wrote (RawBuffer.on data hsize) w hcap
      exact ⟨b', hw, hwrote.failed⟩
  | cons w ws =>
      obtain ⟨b₁, hone, h₁⟩ := write_wrote (RawBuffer.on data hsize) w hcap
      obtain ⟨b, hrest, h⟩ := foldlM_wrote Write.ok Write.text write_wrote ws h₁
      have htext : w.text ++ ws.flatMap Write.text = (w :: ws).flatMap Write.text := rfl
      have hok : (w.ok && ws.all Write.ok) = true ↔ ∀ x ∈ w :: ws, x.ok = true :=
        List.all_eq_true (l := w :: ws)
      have hlen : b.len < b.cap := h.cap ▸ h.len_lt
      have hstart : (RawBuffer.on data hsize).len = 0 := rfl
      rw [htext] at h
      refine ⟨b, ?_, h.cap, hlen, fun hf => run_failed hf hlen, ?_, fun hf => ⟨?_, fun _ => ?_⟩,
        fun x => ?_⟩
      · rw [RawBuffer.run, List.foldlM_cons, hone]
        exact hrest
      · rw [h.failed, hok, hstart, Nat.zero_add]
        exact ⟨fun ⟨_, hall, hroom⟩ => ⟨hall, hroom⟩, fun ⟨hall, hroom⟩ => ⟨rfl, hall, hroom⟩⟩
      · rw [h.len hf, hstart, Nat.zero_add]
      · rw [h.data hf, hstart, List.take_zero, List.nil_append]
      · obtain ⟨b', hx, hwrote⟩ := write_wrote b x hlen
        exact ⟨b', hx, hwrote.failed⟩

/-- A quoted string that just fits, and one more write, which does not. -/
def smallWrites : List Write := [.quote (lit "a\n\"b"), .put (lit "x")]

theorem buffer_holds_writes_small :
    ∃ b, (RawBuffer.on (List.replicate 13 7) (by decide)).run smallWrites = some b ∧
      b.cap = 13 ∧ b.len < b.cap ∧
      (b.failed = true → ∀ more, b.run more = some b) ∧
      (b.failed = false ↔ (∀ w ∈ smallWrites, w.ok = true) ∧
        (smallWrites.flatMap Write.text).length < 13) ∧
      (b.failed = false → b.len = (smallWrites.flatMap Write.text).length ∧
        (smallWrites ≠ [] → b.data.take (b.len + 1) = smallWrites.flatMap Write.text ++ [0])) ∧
      ∀ w, ∃ b', b.write w = some b' ∧ (b'.failed = false ↔
        b.failed = false ∧ w.ok = true ∧ b.len + w.text.length < b.cap) :=
  buffer_holds_writes (List.replicate 13 7) (by decide) (by decide) smallWrites

end GeistServe.App
