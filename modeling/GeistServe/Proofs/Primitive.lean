import GeistServe.App.Compat
import GeistServe.Proofs.Copies

/-!
# Primitives and strings as JSON has them

`valid_primitive` takes the longest run of digits at every place. That is no choice: what may
follow a run does not start with a digit, so a text of the grammar is read in the one way it can
be (`validPrimitive_iff`). The scan of `string` finds an escaped NUL exactly where the decoded
text has one (`nulEscape_iff`).
-/

namespace GeistServe.Compat

open GeistServe.Lib GeistServe.Geistd GeistServe.Json

/-! ## Numbers -/

/-- Digits, at least one. -/
def IsDigits (s : Bytes) : Prop := s ≠ [] ∧ ∀ c ∈ s, isDigit c = true

/-- A whole number: a zero, or digits of which the first is not one. -/
def IsWhole (s : Bytes) : Prop :=
  s = [48] ∨ IsDigits s ∧ ∀ c ∈ s.head?, c ≠ 48

/-- The end of a number: nothing, or its point and digits, or its letter, a sign and digits. -/
def IsFraction (s : Bytes) : Prop := s = [] ∨ ∃ ds, s = 46 :: ds ∧ IsDigits ds

def IsExponent (s : Bytes) : Prop :=
  s = [] ∨ ∃ e sign ds, s = e :: (sign ++ ds) ∧ (e = 101 ∨ e = 69) ∧
    (sign = [] ∨ sign = [43] ∨ sign = [45]) ∧ IsDigits ds

/-- A number of JSON. -/
def IsNumber (s : Bytes) : Prop :=
  ∃ sign whole frac exp, s = sign ++ (whole ++ (frac ++ exp)) ∧ (sign = [] ∨ sign = [45]) ∧
    IsWhole whole ∧ IsFraction frac ∧ IsExponent exp

theorem dropWhile_digits {ds r : Bytes} (hds : ∀ c ∈ ds, isDigit c = true)
    (hr : Digitless r) : (ds ++ r).dropWhile isDigit = r :=
  congrArg Prod.snd (readDigits_append hds hr)

theorem dropWhile_digitless (s : Bytes) : Digitless (s.dropWhile isDigit) := by
  intro c hc
  cases hd : isDigit c with
  | false => rfl
  | true =>
      have hhead := List.head?_dropWhile_not isDigit s
      rw [Option.mem_def.mp hc] at hhead
      exact absurd hd (by simpa using hhead)

theorem skipDigits_iff {s r : Bytes} :
    skipDigits s = some r ↔ ∃ ds, s = ds ++ r ∧ IsDigits ds ∧ Digitless r := by
  cases s with
  | nil =>
      refine ⟨fun h => (by cases h), fun ⟨ds, hs, hds, _⟩ => absurd ?_ hds.1⟩
      exact (List.append_eq_nil_iff.mp hs.symm).1
  | cons c s =>
      rw [skipDigits]
      constructor
      · intro h
        split at h
        · next hc =>
            injection h with h
            subst h
            refine ⟨c :: s.takeWhile isDigit, ?_, ⟨List.cons_ne_nil _ _, ?_⟩,
              dropWhile_digitless s⟩
            · rw [List.cons_append, List.takeWhile_append_dropWhile]
            · intro d hd
              rcases List.mem_cons.mp hd with rfl | hd
              · exact hc
              · exact List.mem_takeWhile_imp hd
        · cases h
      · rintro ⟨ds, hs, ⟨hne, hds⟩, hr⟩
        cases ds with
        | nil => exact absurd rfl hne
        | cons d ds =>
            obtain ⟨rfl, rfl⟩ := List.cons.inj hs
            rw [if_pos (hds c List.mem_cons_self)]
            exact congrArg some
              (dropWhile_digits (fun x hx => hds x (List.mem_cons_of_mem c hx)) hr)

theorem digitless_fraction {s t : Bytes} (hs : IsFraction s) (ht : IsExponent t) :
    Digitless (s ++ t) := by
  intro c hc
  rcases hs with rfl | ⟨ds, rfl, _⟩
  · rcases ht with rfl | ⟨e, sign, ds, rfl, he, _⟩
    · cases hc
    · injection hc with hc
      rcases he with rfl | rfl
      · subst hc
        decide
      · subst hc
        decide
  · injection hc with hc
    subst hc
    decide

theorem skipWhole_some {s r : Bytes} (h : skipWhole s = some r) :
    ∃ w, s = w ++ r ∧ IsWhole w := by
  cases s with
  | nil => cases h
  | cons c s =>
      rw [skipWhole] at h
      split at h
      · next hc =>
          injection h with h
          subst h hc
          exact ⟨[48], rfl, .inl rfl⟩
      · next hc =>
          split at h
          · cases h
          · next hrange =>
              injection h with h
              subst h
              refine ⟨c :: s.takeWhile isDigit, ?_, .inr ⟨⟨List.cons_ne_nil _ _, ?_⟩, ?_⟩⟩
              · rw [List.cons_append, List.takeWhile_append_dropWhile]
              · intro d hd
                rcases List.mem_cons.mp hd with rfl | hd
                · rw [isDigit, decide_eq_true_eq]
                  rw [not_or] at hrange
                  simp only [UInt8.lt_iff_toNat_lt, UInt8.le_iff_toNat_le] at hrange ⊢
                  have hlo : (49 : UInt8).toNat = 49 := rfl
                  have hhi : (48 : UInt8).toNat = 48 := rfl
                  omega
                · exact List.mem_takeWhile_imp hd
              · intro d hd
                injection hd with hd
                exact hd ▸ hc

theorem skipWhole_eq {w r : Bytes} (hw : IsWhole w) (hr : Digitless r) :
    skipWhole (w ++ r) = some r := by
  rcases hw with rfl | ⟨⟨hne, hds⟩, hhead⟩
  · rfl
  · cases w with
    | nil => exact absurd rfl hne
    | cons c w =>
        have hc := hds c List.mem_cons_self
        have hzero : c ≠ 48 := hhead c rfl
        rw [isDigit, decide_eq_true_eq, UInt8.le_iff_toNat_le, UInt8.le_iff_toNat_le] at hc
        have hrange : ¬ (c < 49 ∨ 57 < c) := by
          intro hout
          simp only [UInt8.lt_iff_toNat_lt] at hout
          have hlo : (49 : UInt8).toNat = 49 := rfl
          have hhi : (48 : UInt8).toNat = 48 := rfl
          have hne : c.toNat ≠ 48 := fun he => hzero (UInt8.toNat_inj.mp he)
          omega
        rw [List.cons_append, skipWhole, if_neg hzero, if_neg hrange]
        exact congrArg some (dropWhile_digits (fun x hx => hds x (List.mem_cons_of_mem c hx)) hr)

theorem skipFraction_some {s r : Bytes} (h : skipFraction s = some r) :
    ∃ f, s = f ++ r ∧ IsFraction f := by
  cases s with
  | nil =>
      injection h with h
      exact ⟨[], h ▸ rfl, .inl rfl⟩
  | cons c s =>
      rw [skipFraction] at h
      split at h
      · next hc =>
          subst hc
          obtain ⟨ds, rfl, hds, _⟩ := skipDigits_iff.mp h
          exact ⟨46 :: ds, rfl, .inr ⟨ds, rfl, hds⟩⟩
      · injection h with h
        exact ⟨[], h ▸ rfl, .inl rfl⟩

theorem skipFraction_eq {f t : Bytes} (hf : IsFraction f) (ht : IsExponent t) :
    skipFraction (f ++ t) = some t := by
  have hdigitless : Digitless t := digitless_fraction (.inl rfl) ht
  rcases hf with rfl | ⟨ds, rfl, hds⟩
  · rcases ht with rfl | ⟨e, sign, ds, rfl, he, _⟩
    · rfl
    · rw [List.nil_append, skipFraction, if_neg]
      rintro rfl
      exact absurd he (by decide)
  · rw [List.cons_append, skipFraction, if_pos rfl]
    exact skipDigits_iff.mpr ⟨ds, rfl, hds, hdigitless⟩

theorem skipExponent_iff {s : Bytes} : skipExponent s = some [] ↔ IsExponent s := by
  cases s with
  | nil => exact ⟨fun _ => .inl rfl, fun _ => rfl⟩
  | cons c s =>
      rw [skipExponent]
      constructor
      · intro h
        split at h
        · next hc =>
            obtain ⟨ds, hs, hds, _⟩ := skipDigits_iff.mp h
            rw [List.append_nil] at hs
            split at hs
            · next hsign =>
                cases s with
                | nil => exact absurd hs.symm hds.1
                | cons d s =>
                    refine .inr ⟨c, [d], ds, ?_, hc, .inr ?_, hds⟩
                    · rw [List.singleton_append, ← hs]
                      rfl
                    · rcases hsign with hd | hd
                      · injection hd with hd
                        exact .inl (hd ▸ rfl)
                      · injection hd with hd
                        exact .inr (hd ▸ rfl)
            · exact .inr ⟨c, [], ds, by rw [hs]; rfl, hc, .inl rfl, hds⟩
        · cases h
      · rintro (h | ⟨e, sign, ds, hs, he, hsign, hds⟩)
        · cases h
        · obtain ⟨rfl, rfl⟩ := List.cons.inj hs
          rw [if_pos he]
          have hend : Digitless [] := fun d hd => by cases hd
          have hdigits : skipDigits ds = some [] :=
            skipDigits_iff.mpr ⟨ds, (List.append_nil ds).symm, hds, hend⟩
          rcases hsign with rfl | rfl | rfl
          · rw [List.nil_append, if_neg]
            · exact hdigits
            · intro hd
              have hsign : ∃ d ∈ ds.head?, isDigit d = false := by
                rcases hd with hd | hd
                · exact ⟨43, hd, rfl⟩
                · exact ⟨45, hd, rfl⟩
              obtain ⟨d, hd, hdigit⟩ := hsign
              rw [hds.2 d (List.mem_of_mem_head? hd)] at hdigit
              cases hdigit
          · exact hdigits
          · exact hdigits

/-- `valid_primitive` takes the words and the numbers of JSON. -/
theorem validPrimitive_iff {s : Bytes} : validPrimitive s = true ↔
    s = lit "true" ∨ s = lit "false" ∨ s = lit "null" ∨ IsNumber s := by
  have hnumber : (((skipWhole (if s.head? = some 45 then s.tail else s)).bind skipFraction).bind
      skipExponent) = some [] ↔ IsNumber s := by
    constructor
    · intro h
      obtain ⟨t, ht, hexp⟩ := Option.bind_eq_some_iff.mp h
      obtain ⟨r, hr, hfrac⟩ := Option.bind_eq_some_iff.mp ht
      obtain ⟨w, hw, hwhole⟩ := skipWhole_some hr
      obtain ⟨f, rfl, hf⟩ := skipFraction_some hfrac
      have hexp := skipExponent_iff.mp hexp
      split at hw
      · next hsign =>
          cases s with
          | nil => cases hsign
          | cons c s =>
              injection hsign with hsign
              exact ⟨[45], w, f, t, by rw [← hw, hsign]; rfl, .inr rfl, hwhole, hf, hexp⟩
      · exact ⟨[], w, f, t, by rw [hw]; rfl, .inl rfl, hwhole, hf, hexp⟩
    · rintro ⟨sign, w, f, t, rfl, hsign, hw, hf, ht⟩
      have hrest : ((skipWhole (w ++ (f ++ t))).bind skipFraction).bind skipExponent = some [] := by
        rw [skipWhole_eq hw (digitless_fraction hf ht), Option.bind_some, skipFraction_eq hf ht]
        exact skipExponent_iff.mpr ht
      rcases hsign with rfl | rfl
      · rw [List.nil_append, if_neg]
        · exact hrest
        · intro hminus
          rcases hw with rfl | ⟨⟨hne, hds⟩, _⟩
          · cases hminus
          · cases w with
            | nil => exact absurd rfl hne
            | cons c w =>
                injection hminus with hminus
                have hc := hds c List.mem_cons_self
                rw [hminus] at hc
                cases hc
      · exact hrest
  rw [validPrimitive, Bool.or_eq_true, decide_eq_true_eq, decide_eq_true_eq, hnumber, or_assoc,
    or_assoc]

/-! ## Escaped NULs -/

theorem ofNat_or_ne {a b : Nat} (h : UInt8.ofNat a ≠ 0) : UInt8.ofNat (a ||| b) ≠ 0 := by
  intro hzero
  rw [UInt8.ofNat_or] at hzero
  exact h (UInt8.or_eq_zero_iff.mp hzero).1

/-- The one character whose UTF-8 has a NUL is NUL. -/
theorem zero_mem_utf8 (cp : Nat) : (0 : UInt8) ∈ utf8 cp ↔ cp = 0 := by
  rw [utf8]
  split
  · next hlow =>
      rw [List.mem_singleton]
      constructor
      · intro h
        have hval := congrArg UInt8.toNat h
        rw [UInt8.toNat_ofNat', Nat.mod_eq_of_lt (by omega)] at hval
        exact hval.symm
      · rintro rfl
        rfl
  · next hhigh =>
      have hne : cp ≠ 0 := by omega
      refine ⟨fun h => ?_, fun h => absurd h hne⟩
      split at h
      · rcases List.mem_cons.mp h with h | h
        · exact absurd h.symm (ofNat_or_ne (by decide))
        · exact absurd (List.mem_singleton.mp h).symm (ofNat_or_ne (by decide))
      · split at h
        · rcases List.mem_cons.mp h with h | h
          · exact absurd h.symm (ofNat_or_ne (by decide))
          · rcases List.mem_cons.mp h with h | h
            · exact absurd h.symm (ofNat_or_ne (by decide))
            · exact absurd (List.mem_singleton.mp h).symm (ofNat_or_ne (by decide))
        · rcases List.mem_cons.mp h with h | h
          · exact absurd h.symm (ofNat_or_ne (by decide))
          · rcases List.mem_cons.mp h with h | h
            · exact absurd h.symm (ofNat_or_ne (by decide))
            · rcases List.mem_cons.mp h with h | h
              · exact absurd h.symm (ofNat_or_ne (by decide))
              · exact absurd (List.mem_singleton.mp h).symm (ofNat_or_ne (by decide))

theorem hexVal_zero (c : UInt8) (h : isHex c = true) : hexVal c = 0 ↔ c = 48 := by
  constructor
  · intro hval
    simp only [isHex, Bool.or_eq_true, Bool.and_eq_true, decide_eq_true_eq,
      UInt8.le_iff_toNat_le] at h
    simp only [hexVal, UInt8.le_iff_toNat_le] at hval
    have h₀ : (48 : UInt8).toNat = 48 := rfl
    have h₁ : (57 : UInt8).toNat = 57 := rfl
    have h₂ : (65 : UInt8).toNat = 65 := rfl
    have h₃ : (70 : UInt8).toNat = 70 := rfl
    have h₄ : (97 : UInt8).toNat = 97 := rfl
    refine UInt8.toNat_inj.mp ?_
    split at hval
    · omega
    · split at hval
      · omega
      · omega
  · rintro rfl
    rfl

theorem hexNum_zero {a b c d : UInt8} (h : (isHex a && isHex b && isHex c && isHex d) = true) :
    hexNum [a, b, c, d] = 0 ↔ [a, b, c, d] = lit "0000" := by
  simp only [Bool.and_eq_true] at h
  obtain ⟨⟨⟨ha, hb⟩, hc⟩, hd⟩ := h
  have hlit : lit "0000" = [48, 48, 48, 48] := by decide
  have hsum : hexNum [a, b, c, d] =
      16 * (16 * (16 * (16 * 0 + hexVal a) + hexVal b) + hexVal c) + hexVal d := rfl
  rw [hlit, hsum]
  have hfour : [a, b, c, d] = [48, 48, 48, 48] ↔ a = 48 ∧ b = 48 ∧ c = 48 ∧ d = 48 := by simp
  rw [hfour, ← hexVal_zero a ha, ← hexVal_zero b hb, ← hexVal_zero c hc, ← hexVal_zero d hd]
  omega

theorem escaped_ne {e : UInt8}
    (he : e = 34 ∨ e = 47 ∨ e = 92 ∨ e = 98 ∨ e = 102 ∨ e = 114 ∨ e = 110 ∨ e = 116) :
    escaped e ≠ 0 := by
  rcases he with rfl | rfl | rfl | rfl | rfl | rfl | rfl | rfl
  · decide
  · decide
  · decide
  · decide
  · decide
  · decide
  · decide
  · decide

theorem nulEscape_plain {c : UInt8} (hc : c ≠ 92) (s : Bytes) :
    nulEscape (c :: s) = nulEscape s := by
  rw [nulEscape.eq_def]
  exact if_pos hc

theorem nulEscape_escape (e : UInt8) (s : Bytes) : nulEscape (92 :: e :: s) =
    ((decide (e = 117) && decide (s.take 4 = lit "0000")) || nulEscape s) := by
  rw [nulEscape.eq_def]
  exact if_neg fun hne => hne rfl

theorem pair_ne (hi lo : Nat) : pair hi lo ≠ 0 := by
  intro h
  have hsum : 0x10000 + ((hi - 0xD800) <<< 10 + (lo - 0xDC00)) = 0 :=
    (Nat.add_assoc _ _ _).symm.trans h
  omega

/-- A hexadecimal digit is passed over by the scan. -/
theorem nulEscape_hex {c : UInt8} (h : isHex c = true) (rest : Bytes) :
    nulEscape (c :: rest) = nulEscape rest := by
  have hc : c ≠ 92 := by
    rintro rfl
    cases h
  exact nulEscape_plain hc rest

theorem nulEscape_unicode {a b c d : UInt8} {rest : Bytes}
    (h : (isHex a && isHex b && isHex c && isHex d) = true) :
    nulEscape (92 :: 117 :: a :: b :: c :: d :: rest) =
      (decide (hexNum [a, b, c, d] = 0) || nulEscape rest) := by
  have hzero := hexNum_zero h
  have hlit : (a :: b :: c :: d :: rest).take 4 = [a, b, c, d] := rfl
  simp only [Bool.and_eq_true] at h
  obtain ⟨⟨⟨ha, hb⟩, hc⟩, hd⟩ := h
  rw [nulEscape_escape]
  simp only [decide_true, Bool.true_and]
  rw [hlit, nulEscape_hex ha, nulEscape_hex hb, nulEscape_hex hc, nulEscape_hex hd]
  exact congrArg (· || nulEscape rest) (decide_eq_decide.mpr hzero.symm)

/-- An escaped NUL is found where the decoded text has one. -/
theorem nulEscape_iff {raw : Bytes} (h : Quotable raw) :
    nulEscape raw = true ↔ (0 : UInt8) ∈ unescape raw := by
  induction h with
  | nil => exact ⟨fun h => (by cases h), fun h => (by cases h)⟩
  | @plain c rest hc _ ih =>
      rw [unescape_plain hc.2.2, nulEscape_plain hc.2.2, ih, List.mem_cons]
      exact ⟨.inr, fun h => h.resolve_left fun h0 => hc.1 h0.symm⟩
  | @short e rest he _ ih =>
      have hu : e ≠ 117 := by
        rintro rfl
        exact absurd he (by decide)
      rw [unescape_short hu, nulEscape_escape, Bool.or_eq_true, ih, List.mem_cons]
      simp only [hu, decide_false, Bool.false_and, Bool.false_eq_true, false_or]
      exact ⟨.inr, fun h => h.resolve_left fun h0 => escaped_ne he h0.symm⟩
  | @unicode a b c d rest hx hrest ih =>
      rw [nulEscape_unicode hx, Bool.or_eq_true, decide_eq_true_eq, ih]
      by_cases hhigh : 0xD800 ≤ hexNum [a, b, c, d] ∧ hexNum [a, b, c, d] ≤ 0xDBFF
      · by_cases hesc : ∃ l₁ l₂ l₃ l₄ rest', rest = 92 :: 117 :: l₁ :: l₂ :: l₃ :: l₄ :: rest'
        · obtain ⟨l₁, l₂, l₃, l₄, rest', rfl⟩ := hesc
          by_cases hlow : 0xDC00 ≤ hexNum [l₁, l₂, l₃, l₄] ∧ hexNum [l₁, l₂, l₃, l₄] ≤ 0xDFFF
          · have hpair : unescape (92 :: 117 :: a :: b :: c :: d :: 92 :: 117 :: l₁ :: l₂ :: l₃ ::
                l₄ :: rest') = utf8 (pair (hexNum [a, b, c, d]) (hexNum [l₁, l₂, l₃, l₄])) ++
                  unescape rest' := by
              rw [unescape.eq_def]
              exact (if_pos hhigh).trans (if_pos hlow)
            have hsecond : unescape (92 :: 117 :: l₁ :: l₂ :: l₃ :: l₄ :: rest') =
                utf8 (hexNum [l₁, l₂, l₃, l₄]) ++ unescape rest' :=
              unescape_unicode fun hc => by omega
            have hhi : hexNum [a, b, c, d] ≠ 0 := by omega
            have hlo : hexNum [l₁, l₂, l₃, l₄] ≠ 0 := by omega
            rw [hpair, hsecond, List.mem_append, List.mem_append, zero_mem_utf8, zero_mem_utf8]
            simp only [hhi, hlo, pair_ne, false_or]
          · have halone : unescape (92 :: 117 :: a :: b :: c :: d :: 92 :: 117 :: l₁ :: l₂ :: l₃ ::
                l₄ :: rest') = utf8 (hexNum [a, b, c, d]) ++
                  unescape (92 :: 117 :: l₁ :: l₂ :: l₃ :: l₄ :: rest') := by
              rw [unescape.eq_def]
              exact (if_pos hhigh).trans (if_neg hlow)
            rw [halone, List.mem_append, zero_mem_utf8]
        · have hlone : ∀ l₁ l₂ l₃ l₄ rest',
              rest = 92 :: 117 :: l₁ :: l₂ :: l₃ :: l₄ :: rest' → False :=
            fun l₁ l₂ l₃ l₄ rest' heq => hesc ⟨l₁, l₂, l₃, l₄, rest', heq⟩
          rw [unescape_high hhigh hlone, List.mem_append, zero_mem_utf8]
      · rw [unescape_unicode hhigh, List.mem_append, zero_mem_utf8]

end GeistServe.Compat
