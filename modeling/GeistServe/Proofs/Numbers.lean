import Mathlib.Algebra.Order.Ring.Rat
import Mathlib.Tactic.NormNum
import GeistServe.Geistd.Checked
import GeistServe.Geistd.Plain

/-!
# Numbers that do not fit

Each op compares its number before it converts it, and each in its own way. A
clamp is always enough: `max` and `keep` cannot go wrong. `n` of `pin` and the
stop ids are converted as they come. `topk` is compared with 0 as a double, so a
fraction below 1 passes and becomes 0, and `topk` then reads the entry before the
first of an empty buffer; a number from 2^64 on passes as well.

`NumbersFit` says which headers avoid this, and for these the checked op is the
op of the model. Indices of the history, of the stop ids and of the logits need
no condition.
-/

namespace GeistServe.Proofs

open GeistServe.Geistd

variable {P : Platform}

/-! ## Conversions -/

/-- The number can be converted to `size_t`. -/
def SizeFits (v : Double) : Prop := ∃ q, v = .fin q ∧ -1 < q ∧ q < 2 ^ 64

/-- The number can be converted to `int32_t`. -/
def Int32Fits (v : Double) : Prop := ∃ q, v = .fin q ∧ -(2 ^ 31) - 1 < q ∧ q < 2 ^ 31

/-- A `topk` field that is no request at all, or one for at least one candidate. -/
def TopkFits (v : Double) : Prop :=
  Double.lt (.fin 0) v = true → ∃ q, v = .fin q ∧ 1 ≤ q ∧ q < 2 ^ 64

theorem toSize_some {q : Rat} (hlow : -1 < q) (hhigh : q < 2 ^ 64) :
    (Double.fin q).toSize = some q.floor.toNat := if_pos ⟨hlow, hhigh⟩

theorem toSize_none {v : Double} (h : ¬ SizeFits v) : v.toSize = none := by
  cases v with
  | fin q =>
      rw [Double.toSize, if_neg]
      exact fun hq => h ⟨q, rfl, hq.1, hq.2⟩
  | inf neg => rfl
  | nan => rfl

theorem toInt32_isSome {v : Double} : v.toInt32.isSome ↔ Int32Fits v := by
  cases v with
  | fin q =>
      have hiff : (-(2 ^ 31) ≤ (if 0 ≤ q then q.floor else q.ceil) ∧
          (if 0 ≤ q then q.floor else q.ceil) < 2 ^ 31) ↔
          (-(2 ^ 31) - 1 < q ∧ q < 2 ^ 31) := by
        split
        · next hpos =>
            have hzero : 0 ≤ q.floor := Rat.le_floor_iff.mpr (by exact_mod_cast hpos)
            have hlow : -(2 ^ 31) ≤ q.floor := by omega
            have hlow' : -(2 ^ 31) - 1 < q := lt_of_lt_of_le (by norm_num) hpos
            have hhigh : q.floor < 2 ^ 31 ↔ q < 2 ^ 31 := by
              rw [Rat.floor_lt_iff]
              norm_num
            exact ⟨fun h => ⟨hlow', hhigh.mp h.2⟩, fun h => ⟨hlow, hhigh.mpr h.2⟩⟩
        · next hneg =>
            have hneg := not_le.mp hneg
            have hzero : q.ceil ≤ 0 := Rat.ceil_le_iff.mpr (by exact_mod_cast hneg.le)
            have hhigh : q.ceil < 2 ^ 31 := by omega
            have hhigh' : q < 2 ^ 31 := hneg.trans (by norm_num)
            have hlow : -(2 ^ 31) ≤ q.ceil ↔ -(2 ^ 31) - 1 < q := by
              rw [← Int.sub_one_lt_iff, Rat.lt_ceil_iff]
              norm_num
            exact ⟨fun h => ⟨hlow.mp h.1, hhigh'⟩, fun h => ⟨hlow.mpr h.1, hhigh⟩⟩
      simp only [Double.toInt32]
      generalize (if 0 ≤ q then q.floor else q.ceil) = t at hiff ⊢
      split
      · next h => exact ⟨fun _ => ⟨q, rfl, hiff.mp h⟩, fun _ => rfl⟩
      · next h =>
          refine ⟨fun hsome => (by cases hsome), ?_⟩
          rintro ⟨r, hr, hfits⟩
          injection hr with hr
          exact absurd (hiff.mpr (hr ▸ hfits)) h
  | inf neg => exact ⟨fun h => (by cases h), fun ⟨q, h, _⟩ => (by cases h)⟩
  | nan => exact ⟨fun h => (by cases h), fun ⟨q, h, _⟩ => (by cases h)⟩

/-- A clamp between two numbers that fit always fits. -/
theorem clamp_size {v : Option JVal} {dflt lo hi : Rat} (hlo : -1 < lo) (hle : lo ≤ hi)
    (hhi : hi < 2 ^ 64) : ∃ n, (jsonClamp v (.fin dflt) (.fin lo) (.fin hi)).1.toSize = some n := by
  have hfin : ∀ q : Rat, ∃ n, (if (Double.fin q).lt (.fin lo) then Double.fin lo
      else if (Double.fin hi).lt (.fin q) then .fin hi else .fin q).toSize = some n := by
    intro q
    split
    · exact ⟨_, toSize_some hlo (hle.trans_lt hhi)⟩
    · next hge =>
        split
        · exact ⟨_, toSize_some (hlo.trans_le hle) hhi⟩
        · next hle =>
            have hge : lo ≤ q := not_lt.mp fun h => hge (decide_eq_true h)
            have hle : q ≤ hi := not_lt.mp fun h => hle (decide_eq_true h)
            exact ⟨_, toSize_some (hlo.trans_le hge) (hle.trans_lt hhi)⟩
  simp only [jsonClamp]
  cases jsonNum v (.fin dflt) with
  | fin q => exact hfin q
  | inf neg =>
      cases neg with
      | true => exact ⟨_, toSize_some hlo (hle.trans_lt hhi)⟩
      | false => exact ⟨_, toSize_some (hlo.trans_le hle) hhi⟩
  | nan => exact hfin dflt

theorem max_size (v : Option JVal) :
    ∃ n, (jsonClamp v (.fin 256) (.fin 1) (.fin CTX_CAP)).1.toSize = some n :=
  clamp_size (by norm_num) (by norm_num [CTX_CAP]) (by norm_num [CTX_CAP])

theorem keep_size (v : Option JVal) :
    ∃ n, (jsonClamp v (.fin (-1)) (.fin 0) (.fin (10 ^ 9))).1.toSize = some n :=
  clamp_size (by norm_num) (by norm_num) (by norm_num)

/-! ## topk -/

section

variable {α : Type} [LT α] [DecidableLT α]

theorem shiftTo_some (v : α) {buf : Tops α} : ∀ {last : Nat}, last ≤ buf.length →
    ∃ j, shiftTo v buf last = some j ∧ j ≤ last := by
  intro last
  induction last with
  | zero => exact fun _ => ⟨0, rfl, Nat.le_refl 0⟩
  | succ last ih =>
      intro hle
      obtain ⟨j, hj, hjle⟩ := ih (by omega)
      rw [shiftTo, List.getElem?_eq_getElem (by omega)]
      simp only
      split
      · exact ⟨j, hj, by omega⟩
      · exact ⟨last + 1, rfl, Nat.le_refl _⟩

theorem logzMax_some {lg : List α} (h : lg ≠ []) : ∃ mx, logzMax lg = some mx := by
  cases lg with
  | nil => exact absurd rfl h
  | cons v lg => exact ⟨_, rfl⟩

theorem mapM_total {β γ : Type} {f : β → Option γ} (hf : ∀ b, ∃ c, f b = some c) :
    ∀ bs : List β, ∃ cs, bs.mapM f = some cs := by
  intro bs
  induction bs with
  | nil => exact ⟨[], rfl⟩
  | cons b bs ih =>
      obtain ⟨c, hc⟩ := hf b
      obtain ⟨cs, hcs⟩ := ih
      refine ⟨c :: cs, ?_⟩
      rw [List.mapM_cons, hc, hcs]
      rfl

theorem checkedIds_some {lg : List α} (hlg : lg ≠ []) (ids : List Int) :
    ∃ at', checkedIds lg ids = some at' := by
  rw [checkedIds]
  split
  · exact ⟨[], rfl⟩
  · obtain ⟨mx, hmx⟩ := logzMax_some hlg
    rw [hmx]
    refine mapM_total (fun id => ?_) ids
    split
    · next h =>
        rw [List.getElem?_eq_getElem h.2]
        exact ⟨_, rfl⟩
    · exact ⟨none, rfl⟩

variable [LE α] [DecidableLE α]

/-- A turn of the loop stays inside of the arrays, however the values compare. -/
theorem topkStep_some {k i : Nat} {v : α} {buf : Tops α} (hpos : 1 ≤ k) (hcap : k ≤ TOPK_MAX)
    (hlen : buf.length ≤ k) : ∃ buf', topkStep k buf i v = some buf' ∧ buf'.length ≤ k := by
  have hput : ∃ buf', topkPut k buf i v = some buf' ∧ buf'.length ≤ k := by
    rw [topkPut]
    have hroom : (if buf.length < k then buf.length else k - 1) + 1 ≤ k := by
      split <;> omega
    have hle : (if buf.length < k then buf.length else k - 1) ≤ buf.length := by
      split <;> omega
    generalize (if buf.length < k then buf.length else k - 1) = last at hroom hle ⊢
    obtain ⟨j, hj, hjle⟩ := shiftTo_some v hle
    rw [if_pos (by omega), hj]
    refine ⟨_, rfl, ?_⟩
    rw [List.length_append, List.length_cons, List.length_drop, List.length_take,
      List.length_take]
    omega
  rw [topkStep, skips]
  by_cases hk : buf.length = k
  · cases he : buf.getLast? with
    | none =>
        rw [List.getLast?_eq_none_iff.mp he, List.length_nil] at hk
        omega
    | some e =>
        rw [if_pos hk, Option.map_some]
        cases decide (v ≤ e.2) with
        | true => exact ⟨buf, rfl, hlen⟩
        | false => exact hput
  · rw [if_neg hk]
    exact hput

theorem topkFrom_some {k : Nat} (hpos : 1 ≤ k) (hcap : k ≤ TOPK_MAX) :
    ∀ (x : List α) {i : Nat} {buf : Tops α}, buf.length ≤ k →
      ∃ top, topkFrom k i buf x = some top := by
  intro x
  induction x with
  | nil => exact fun {i buf} _ => ⟨buf, rfl⟩
  | cons v x ih =>
      intro i buf hlen
      obtain ⟨buf', hstep, hlen'⟩ := topkStep_some (i := i) (v := v) hpos hcap hlen
      obtain ⟨top, htop⟩ := ih (i := i + 1) hlen'
      exact ⟨top, by rw [topkFrom, hstep, Option.bind_some, htop]⟩

/-- The read before the first entry. -/
theorem topk_zero {x : List α} (hx : x ≠ []) : topk 0 x = none := by
  cases x with
  | nil => exact absurd rfl hx
  | cons v x => rfl

theorem checkedTop_some {k : Double} {lg : List α} (hlg : lg ≠ []) (hk : TopkFits k) :
    ∃ top, checkedTop k lg = some top := by
  rw [checkedTop]
  split
  · next hpos =>
      obtain ⟨q, rfl, hone, hhigh⟩ := hk hpos
      have hfloor : 1 ≤ q.floor := Rat.le_floor_iff.mpr (by exact_mod_cast hone)
      rw [toSize_some (lt_of_lt_of_le (by norm_num) hone) hhigh, Option.bind_some]
      have hnone : ([] : Tops α).length ≤ min q.floor.toNat TOPK_MAX := Nat.zero_le _
      obtain ⟨top, htop⟩ := topkFrom_some (Nat.le_min.mpr ⟨by omega, by decide⟩)
        (Nat.min_le_right _ _) lg (i := 0) hnone
      obtain ⟨mx, hmx⟩ := logzMax_some hlg
      refine ⟨top, ?_⟩
      rw [sbTopk, topk, htop, Option.bind_some, hmx]
      rfl
  · exact ⟨[], rfl⟩

theorem checkedTop_none {k : Double} {lg : List α} (hlg : lg ≠ []) (hk : ¬ TopkFits k) :
    checkedTop k lg = none := by
  obtain ⟨hpos, hno⟩ := Classical.not_imp.mp hk
  rw [checkedTop, if_pos hpos]
  by_cases hfits : SizeFits k
  · obtain ⟨q, rfl, hlow, hhigh⟩ := hfits
    have hone : q < 1 := not_le.mp fun h => hno ⟨q, rfl, h, hhigh⟩
    have hfloor : q.floor < 1 := Rat.floor_lt_iff.mpr (by exact_mod_cast hone)
    have hzero : q.floor.toNat = 0 := by omega
    rw [toSize_some hlow hhigh, Option.bind_some, hzero, sbTopk, Nat.zero_min, topk_zero hlg]
    rfl
  · rw [toSize_none hfits]
    rfl

end

/-! ## The history and the stop ids -/

theorem checkedPush_eq {E : Engine} (x : Sess E) (ids : List Int) :
    checkedPush x ids = some (histPush x ids) := by
  rw [checkedPush, histPush]
  split
  · rfl
  · next hroom =>
      rw [within, if_pos (Nat.not_lt.mp hroom)]
      rfl

theorem checkedGenLoop_eq {E : Engine} (st : Stops) :
    ∀ (fuel k : Nat) (tail : CStr) (x : Sess E) (c : Conn),
      checkedGenLoop st fuel k tail x c = some (genLoop st fuel k tail x c) := by
  intro fuel
  induction fuel with
  | zero => exact fun _ _ _ _ => rfl
  | succ fuel ih =>
      intro k tail x c
      rw [checkedGenLoop, genLoop]
      split
      · rfl
      · generalize E.decodeStep x.s = r
        obtain ⟨t, s⟩ := r
        cases t with
        | none => rfl
        | some t =>
            simp only [checkedPush_eq, Option.bind_some]
            generalize reply c _ = q
            obtain ⟨c', ok⟩ := q
            cases ok with
            | false => rfl
            | true =>
                simp only
                split
                · rfl
                · exact ih _ _ _ _

/-- The numbers of a request that become stop ids. -/
def stopNumbers (j : Json) : List Double :=
  match jsonGet j "stop_ids" with
  | some (.arr xs) => (xs.take 16).map fun v => jsonNum (some v) (.fin (-1))
  | _ => []

theorem castInt32_some {v : Double} {t : Int} (h : v.toInt32 = some t) : P.castInt32 v = t := by
  rw [Platform.castInt32, h]
  rfl

theorem checkedStopIds_some : ∀ (xs : List JVal) (n : Nat),
    (∀ v ∈ xs.take (16 - n), Int32Fits (jsonNum (some v) (.fin (-1)))) →
    checkedStopIds n xs =
      some ((xs.take (16 - n)).map fun v => P.castInt32 (jsonNum (some v) (.fin (-1)))) := by
  intro xs
  induction xs with
  | nil =>
      intro n _
      rw [checkedStopIds, List.take_nil]
      rfl
  | cons v xs ih =>
      intro n hfits
      rw [checkedStopIds]
      split
      · next hn =>
          obtain ⟨r, hr⟩ : ∃ r, 16 - n = r + 1 := ⟨15 - n, by omega⟩
          have hrest : 16 - (n + 1) = r := by omega
          rw [hr, List.take_succ_cons] at hfits ⊢
          obtain ⟨t, ht⟩ := Option.isSome_iff_exists.mp
            (toInt32_isSome.mpr (hfits v List.mem_cons_self))
          rw [ht, Option.bind_some, within, if_pos (by omega), Option.bind_some, ih (n + 1), hrest,
            List.map_cons, castInt32_some ht]
          · rfl
          · exact fun w hw => hfits w (List.mem_cons_of_mem v (hrest ▸ hw))
      · next hn =>
          rw [Nat.sub_eq_zero_of_le (Nat.not_lt.mp hn), List.take_zero]
          rfl

theorem checkedStopIds_none : ∀ (xs : List JVal) (n : Nat),
    (∃ v ∈ xs.take (16 - n), ¬ Int32Fits (jsonNum (some v) (.fin (-1)))) →
    checkedStopIds n xs = none := by
  intro xs
  induction xs with
  | nil =>
      rintro n ⟨v, hv, _⟩
      rw [List.take_nil] at hv
      cases hv
  | cons v xs ih =>
      rintro n ⟨w, hw, hfits⟩
      have hn : n < 16 := by
        by_contra hn
        rw [Nat.sub_eq_zero_of_le (Nat.not_lt.mp hn), List.take_zero] at hw
        cases hw
      obtain ⟨r, hr⟩ : ∃ r, 16 - n = r + 1 := ⟨15 - n, by omega⟩
      have hrest : 16 - (n + 1) = r := by omega
      rw [checkedStopIds, if_pos hn]
      rw [hr, List.take_succ_cons] at hw
      cases ht : (jsonNum (some v) (.fin (-1))).toInt32 with
      | none => rfl
      | some t =>
          rcases List.mem_cons.mp hw with rfl | hw
          · exact absurd (toInt32_isSome.mp (ht ▸ rfl)) hfits
          · rw [Option.bind_some, within, if_pos (by omega), Option.bind_some,
              ih (n + 1) ⟨w, hrest ▸ hw, hfits⟩]
            rfl

theorem checkedStops_some {d : Daemon P} {j : Json} (h : ∀ v ∈ stopNumbers j, Int32Fits v) :
    checkedStops d j = some (d.genStops j) := by
  rw [checkedStops, Daemon.genStops]
  rw [stopNumbers] at h
  generalize jsonGet j "stop_ids" = w at h ⊢
  cases w with
  | none => rfl
  | some w =>
      cases w with
      | arr xs =>
          simp only
          rw [checkedStopIds_some (P := P) xs 0 fun v hv => h _ (List.mem_map_of_mem hv)]
          rfl
      | _ => rfl

theorem checkedStops_none {d : Daemon P} {j : Json} (h : ¬ ∀ v ∈ stopNumbers j, Int32Fits v) :
    checkedStops d j = none := by
  obtain ⟨v, hv, hfits⟩ : ∃ v ∈ stopNumbers j, ¬ Int32Fits v := by
    by_contra hall
    exact h fun v hv => Classical.byContradiction fun hno => hall ⟨v, hv, hno⟩
  rw [stopNumbers] at hv
  rw [checkedStops]
  split at hv
  · next xs hxs =>
      obtain ⟨w, hw, rfl⟩ := List.mem_map.mp hv
      have hstop := checkedStopIds_none xs 0 ⟨w, hw, hfits⟩
      simp only [hxs, hstop, Option.map_none]
  · cases hv

/-! ## The ops -/

theorem nonempty_logits {α : Type} {lg : Pending P α} {s : P.E.Sess}
    (h : P.E.peekLogits s ≠ 0) : lg.of s ≠ [] :=
  fun hnil => h (by rw [← lg.length_of, hnil]; rfl)

/-- What a header has to look like for the session (or none) that it names. -/
structure NumbersFit (d : Daemon P) (i : Option Nat) (op : CStr) (j : Json) : Prop where
  peek : op = lit "peek" → ∀ x, i.bind (slot d.sess) = some x → P.E.peekLogits x.s ≠ 0 →
    TopkFits (jsonNum (jsonGet j "topk") (.fin 0))
  step : op = lit "step" → ∀ x, i.bind (slot d.sess) = some x → x.hist ≠ [] →
    x.hist.length < CTX_CAP - 1 → P.E.peekLogits x.s ≠ 0 →
    TopkFits (jsonNum (jsonGet j "topk") (.fin 0))
  generate : op = lit "generate" → ∀ x, i.bind (slot d.sess) = some x → x.hist ≠ [] →
    ∀ v ∈ stopNumbers j, Int32Fits v
  pin : op = lit "pin" → SizeFits (jsonNum (jsonGet j "n") (.fin 0))

section

variable {α : Type} [LT α] [LE α] [DecidableLT α] [DecidableLE α]

theorem checkedPeek_some {lg : Pending P α} {d : Daemon P} {i : Option Nat} {j : Json}
    {body : Body} (h : ∀ x, i.bind (slot d.sess) = some x → P.E.peekLogits x.s ≠ 0 →
      TopkFits (jsonNum (jsonGet j "topk") (.fin 0))) :
    checkedPeek lg d i j body = some (d.opPeek i) := by
  rw [checkedPeek, Daemon.opPeek]
  cases hx : i.bind (slot d.sess) with
  | none => rfl
  | some x =>
      simp only [lg.length_of]
      split
      · rfl
      · next hn =>
          have hlg : lg.of x.s ≠ [] := nonempty_logits hn
          obtain ⟨top, htop⟩ := checkedTop_some hlg (h x hx hn)
          obtain ⟨at', hat⟩ := checkedIds_some hlg (int32s body.bytes)
          rw [htop, Option.bind_some, hat]
          rfl

theorem checkedPeek_none {lg : Pending P α} {d : Daemon P} {i : Option Nat} {j : Json}
    {body : Body} {x : Sess P.E} (hx : i.bind (slot d.sess) = some x)
    (hn : P.E.peekLogits x.s ≠ 0) (h : ¬ TopkFits (jsonNum (jsonGet j "topk") (.fin 0))) :
    checkedPeek lg d i j body = none := by
  rw [checkedPeek, hx]
  simp only [lg.length_of]
  rw [if_neg hn, checkedTop_none (nonempty_logits hn) h]
  rfl

theorem checkedStep_some {lg : Pending P α} {eos : Int} {eot : List Int} {j : Json}
    {x : Sess P.E} (h : x.hist ≠ [] → x.hist.length < CTX_CAP - 1 → P.E.peekLogits x.s ≠ 0 →
      TopkFits (jsonNum (jsonGet j "topk") (.fin 0))) :
    checkedStep lg eos eot j x = some (opStep eos eot x) := by
  rw [checkedStep, opStep]
  split
  · rfl
  · next hne =>
      split
      · rfl
      · next hfull =>
          have htop : ∃ top, (if (lg.of x.s).length = 0 then some []
              else checkedTop (jsonNum (jsonGet j "topk") (.fin 0)) (lg.of x.s)) = some top := by
            rw [lg.length_of]
            split
            · exact ⟨[], rfl⟩
            · next hn =>
                exact checkedTop_some (nonempty_logits hn) (h hne (Nat.not_le.mp hfull) hn)
          obtain ⟨top, htop⟩ := htop
          simp only [htop, Option.bind_some]
          generalize P.E.decodeStep x.s = r
          obtain ⟨t, s⟩ := r
          cases t with
          | none => rfl
          | some t =>
              simp only [checkedPush_eq]
              rfl

theorem checkedStep_none {lg : Pending P α} {eos : Int} {eot : List Int} {j : Json}
    {x : Sess P.E} (hne : x.hist ≠ []) (hroom : x.hist.length < CTX_CAP - 1)
    (hn : P.E.peekLogits x.s ≠ 0) (h : ¬ TopkFits (jsonNum (jsonGet j "topk") (.fin 0))) :
    checkedStep lg eos eot j x = none := by
  rw [checkedStep, if_neg hne, if_neg (Nat.not_le.mpr hroom)]
  simp only [lg.length_of]
  rw [if_neg hn, checkedTop_none (nonempty_logits hn) h]
  rfl

end

theorem castSize_some {v : Double} {n : Nat} (h : v.toSize = some n) : P.castSize v = n := by
  rw [Platform.castSize, h]
  rfl

/-- The session that a request names, with its slot. -/
theorem bind_slot {d : Daemon P} {i : Option Nat} :
    (i.bind fun i => (slot d.sess i).map fun x => (i, x)).map Prod.snd =
      i.bind (slot d.sess) := by
  cases i with
  | none => rfl
  | some i =>
      rw [Option.bind_some, Option.bind_some, Option.map_map]
      exact Option.map_id'

theorem checkedGenerate_some {d : Daemon P} {i : Option Nat} {j : Json} {c : Conn}
    (h : ∀ x, i.bind (slot d.sess) = some x → x.hist ≠ [] → ∀ v ∈ stopNumbers j, Int32Fits v) :
    checkedGenerate d i j c = some (d.generate i j c) := by
  rw [← bind_slot] at h
  rw [checkedGenerate, Daemon.generate]
  generalize (i.bind fun i => (slot d.sess i).map fun x => (i, x)) = found at h ⊢
  cases found with
  | none => rfl
  | some r =>
      obtain ⟨i, x⟩ := r
      simp only [opGenerate]
      split
      · rfl
      · next hne =>
          obtain ⟨max, hmax⟩ := max_size (jsonGet j "max")
          rw [hmax, checkedStops_some (h x rfl hne), castSize_some hmax]
          simp only [Option.bind_some, checkedGenLoop_eq, Option.map_some]
          generalize genLoop (d.genStops j) max 0 [] x c = r
          obtain ⟨x', c', reason, k⟩ := r
          simp only
          split <;> rfl

theorem checkedGenerate_none {d : Daemon P} {i : Option Nat} {j : Json} {c : Conn}
    {x : Sess P.E} (hx : i.bind (slot d.sess) = some x) (hne : x.hist ≠ [])
    (h : ¬ ∀ v ∈ stopNumbers j, Int32Fits v) : checkedGenerate d i j c = none := by
  rw [← bind_slot] at hx
  rw [checkedGenerate]
  generalize (i.bind fun i => (slot d.sess i).map fun x => (i, x)) = found at hx ⊢
  cases found with
  | none => cases hx
  | some r =>
      obtain ⟨i, y⟩ := r
      injection hx with hx
      subst hx
      simp only
      obtain ⟨max, hmax⟩ := max_size (jsonGet j "max")
      rw [if_neg hne, hmax, checkedStops_none h]
      rfl

theorem checkedPin_some {d : Daemon P} {i : Option Nat} {j : Json}
    (h : SizeFits (jsonNum (jsonGet j "n") (.fin 0))) :
    checkedPin d i j = some (d.onSess i "pin: unknown session" fun x =>
      opPin x (P.castSize (jsonNum (jsonGet j "n") (.fin 0)))) := by
  obtain ⟨q, hq, hlow, hhigh⟩ := h
  rw [checkedPin, hq, toSize_some hlow hhigh, Option.bind_some,
    castSize_some (toSize_some hlow hhigh)]
  cases hx : i.bind (slot d.sess) with
  | none =>
      rw [← bind_slot, Option.map_eq_none_iff] at hx
      rw [Daemon.onSess, hx]
  | some x =>
      simp only
      split
      · rfl
      · next hn =>
          rw [within, if_pos (by omega)]
          rfl

theorem checkedPin_none {d : Daemon P} {i : Option Nat} {j : Json}
    (h : ¬ SizeFits (jsonNum (jsonGet j "n") (.fin 0))) : checkedPin d i j = none := by
  rw [checkedPin, toSize_none h]
  rfl

theorem checkedRewind_some {j : Json} {x : P.R.Chat} :
    checkedRewind j x = some (opChatRewind P j x) := by
  obtain ⟨keep, hkeep⟩ := keep_size (jsonGet j "keep")
  cases hr : P.R.rewind x keep <;>
    simp only [checkedRewind, opChatRewind, hkeep, castSize_some hkeep, Option.map_some, hr]

/-! ## Dispatch -/

section

variable {α : Type} [LT α] [LE α] [DecidableLT α] [DecidableLE α]

/-- One op after the other, each by its own name. -/
theorem checkedDispatch_some {lg : Pending P α} {d : Daemon P} {env : Env} {op : CStr}
    {j : Json} {body : Body} {c : Conn}
    (h : NumbersFit (d.findSess env (jsonStrdup (jsonGet j "session"))).1
      (d.findSess env (jsonStrdup (jsonGet j "session"))).2 op j) :
    checkedDispatch lg d env op j body c = some (dispatch d env op j body c) := by
  rw [checkedDispatch]
  have hdispatch : dispatch d env op j body c = dispatch d env op j body c := rfl
  conv at hdispatch => rhs; rw [dispatch]
  generalize d.findSess env (jsonStrdup (jsonGet j "session")) = found at h hdispatch ⊢
  obtain ⟨d', i⟩ := found
  simp only at h hdispatch ⊢
  split
  · next hop =>
      subst hop
      rw [checkedPeek_some (h.peek rfl), hdispatch]
      rfl
  · split
    · next hop =>
        subst hop
        have hfits := h.step rfl
        rw [← bind_slot] at hfits
        rw [hdispatch]
        show _ = some (Daemon.say c (d'.onSess i "step: unknown session" (opStep d'.eos d'.eot)))
        rw [Daemon.onSess]
        generalize (i.bind fun i => (slot d'.sess i).map fun x => (i, x)) = r at hfits ⊢
        cases r with
        | none => rfl
        | some r =>
            simp only
            rw [checkedStep_some (hfits r.2 rfl)]
            rfl
    · split
      · next hop =>
          subst hop
          rw [checkedGenerate_some (h.generate rfl), hdispatch]
          rfl
      · split
        · next hop =>
            subst hop
            rw [checkedPin_some (h.pin rfl), hdispatch]
            rfl
        · split
          · next hop =>
              subst hop
              rw [hdispatch]
              show _ = some (d'.chatOp env (lit "chat_rewind") j body c)
              rw [Daemon.chatOp]
              generalize d'.findChat env (jsonStrdup (jsonGet j "chat")) = named
              obtain ⟨d'', k⟩ := named
              simp only
              generalize (k.bind fun k => (slot d''.chats k).map fun x => (k, x)) = r
              cases r with
              | none => rfl
              | some r =>
                  simp only
                  rw [checkedRewind_some]
                  rfl
          · rfl

/-- A header with numbers that do not fit meets a conversion or an index that is
not defined. -/
theorem checkedDispatch_none {lg : Pending P α} {d : Daemon P} {env : Env} {op : CStr}
    {j : Json} {body : Body} {c : Conn}
    (h : ¬ NumbersFit (d.findSess env (jsonStrdup (jsonGet j "session"))).1
      (d.findSess env (jsonStrdup (jsonGet j "session"))).2 op j) :
    checkedDispatch lg d env op j body c = none := by
  rw [checkedDispatch]
  generalize d.findSess env (jsonStrdup (jsonGet j "session")) = found at h ⊢
  obtain ⟨d', i⟩ := found
  simp only at h ⊢
  by_contra hsome
  refine h ⟨fun hop x hx hn => ?_, fun hop x hx hne hroom hn => ?_, fun hop x hx hne => ?_,
    fun hop => ?_⟩
  · subst hop
    by_contra hno
    refine hsome ?_
    rw [if_pos rfl, checkedPeek_none hx hn hno]
    rfl
  · subst hop
    by_contra hno
    refine hsome ?_
    rw [if_neg (by decide), if_pos rfl]
    rw [← bind_slot] at hx
    generalize (i.bind fun i => (slot d'.sess i).map fun x => (i, x)) = r at hx ⊢
    cases r with
    | none => cases hx
    | some r =>
        injection hx with hx
        subst hx
        simp only
        rw [checkedStep_none hne hroom hn hno]
        rfl
  · subst hop
    by_contra hno
    refine hsome ?_
    rw [if_neg (by decide), if_neg (by decide), if_pos rfl, checkedGenerate_none hx hne hno]
  · subst hop
    by_contra hno
    refine hsome ?_
    rw [if_neg (by decide), if_neg (by decide), if_neg (by decide), if_pos rfl,
      checkedPin_none hno]
    rfl

/-- For every header of these ops the checked op finds nothing undefined exactly
when the numbers fit, and then it is the op: `topk` of a `peek` or a `step` that
gets to it is absent, no number, not positive, or at least 1 and less than 2^64;
`n` of a `pin` is more than -1 and less than 2^64; the first 16 `stop_ids` of a
`generate` that gets to them are in the range of `int32_t` once truncated. `max`
and `keep` always are. -/
theorem dispatch_defined_iff (lg : Pending P α) (d : Daemon P) (env : Env) (op : CStr)
    (j : Json) (body : Body) (c : Conn) :
    (checkedDispatch lg d env op j body c ≠ none ↔
      NumbersFit (d.findSess env (jsonStrdup (jsonGet j "session"))).1
        (d.findSess env (jsonStrdup (jsonGet j "session"))).2 op j) ∧
    (∀ r, checkedDispatch lg d env op j body c = some r → r = dispatch d env op j body c) := by
  constructor
  · constructor
    · intro h
      by_contra hno
      exact h (checkedDispatch_none hno)
    · intro h hnone
      rw [checkedDispatch_some h] at hnone
      cases hnone
  · intro r hr
    by_cases h : NumbersFit (d.findSess env (jsonStrdup (jsonGet j "session"))).1
        (d.findSess env (jsonStrdup (jsonGet j "session"))).2 op j
    · rw [checkedDispatch_some h] at hr
      injection hr with hr
      exact hr.symm
    · rw [checkedDispatch_none h] at hr
      cases hr

end

/-- Logits of the plain platform: all 0. -/
def zeros : Pending plain Int where
  of s := List.replicate (plain.E.peekLogits s) 0
  length_of _ := List.length_replicate

/-- A `peek` for half a candidate, and a `pin` of a negative length. -/
theorem dispatch_undefined_half :
    let d : Daemon plain :=
      { plainDaemon 1 0 none false with
        sess := [some { id := lit "s", s := ⟨[0], []⟩, hist := [0], used := 0 }] }
    checkedDispatch zeros d ⟨0, [], false⟩ (lit "peek")
      [(lit "session", .str (lit "s")), (lit "topk", .num (.fin (1 / 2)))] {} {} = none ∧
    checkedDispatch zeros d ⟨0, [], false⟩ (lit "pin")
      [(lit "session", .str (lit "s")), (lit "n", .num (.fin (-1)))] {} {} = none := by
  refine ⟨checkedDispatch_none fun h => ?_, checkedDispatch_none fun h => ?_⟩
  · obtain ⟨q, hq, hone, _⟩ := h.peek rfl _ rfl (by decide) (by decide +kernel)
    obtain rfl : 1 / 2 = q := Double.fin.inj hq
    exact absurd hone (by norm_num)
  · obtain ⟨q, hq, hlow, _⟩ := h.pin rfl
    obtain rfl : -1 = q := Double.fin.inj hq
    exact absurd hlow (lt_irrefl _)

end GeistServe.Proofs
