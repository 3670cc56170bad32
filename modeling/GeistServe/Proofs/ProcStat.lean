import GeistServe.App.ProcStat
import GeistServe.Lib.Words
import Mathlib.Data.List.DropRight

/-!
# What the parser makes of a stat line

The fields of a line are the `words` of its first line behind the last closing parenthesis.
One turn of the loop takes one word (`parseField_words`), so the loop takes the words at the
places of its fields, whatever command name stands in front. The conversion is exact where
it does not overflow: quotient and remainder are scaled apart, and the sum is the whole
scaled at once (`scaled`).

The last addition writes into the caller's sample before it is known to fit. That is the one
way in which a failure changes the sample.
-/

namespace GeistServe.App

open GeistServe.Lib GeistServe.Geistd GeistServe.Observe

/-! ## Words of the first line -/

def blank (c : UInt8) : Bool := c == 32

/-- The fields of the rest of a line. -/
def fieldsOf (p : Bytes) : List Bytes := words blank (p.takeWhile (· != 10))

/-- The end of the first line, after the blanks in front. -/
theorem line_dropWhile (p : Bytes) :
    (p.dropWhile blank).takeWhile (· != 10) = (p.takeWhile (· != 10)).dropWhile blank := by
  induction p with
  | nil => rfl
  | cons c p ih =>
      by_cases hc : blank c = true
      · have hline : (c != 10) = true := by
          rw [beq_iff_eq.mp hc]
          decide
        rw [List.dropWhile_cons, if_pos hc, ih, List.takeWhile_cons, if_pos hline,
          List.dropWhile_cons, if_pos hc]
      · rw [List.dropWhile_cons, if_neg hc, List.takeWhile_cons]
        split
        · rw [List.dropWhile_cons, if_neg hc]
        · rfl

theorem fieldsOf_dropWhile (p : Bytes) : fieldsOf (p.dropWhile blank) = fieldsOf p := by
  rw [fieldsOf, line_dropWhile, words_dropWhile]
  rfl

/-- A character of a field. -/
def inField (c : UInt8) : Bool := c != 32 && c != 10

/-- The first field, and where it ends. -/
theorem fieldsOf_field {p : Bytes} (hp : p.dropWhile blank = p) :
    fieldsOf p = if p.takeWhile inField = [] then []
      else p.takeWhile inField :: fieldsOf (p.dropWhile inField) := by
  by_cases hnone : p.takeWhile inField = []
  · rw [if_pos hnone]
    cases p with
    | nil => rfl
    | cons c p =>
        have hblank : blank c = false := by
          by_contra hc
          rw [Bool.not_eq_false] at hc
          rw [List.dropWhile_cons, if_pos hc] at hp
          have hlen := congrArg List.length hp
          have hle := (List.dropWhile_suffix blank (l := p)).length_le
          rw [List.length_cons] at hlen
          omega
        have hc : inField c = false := by
          by_contra hc
          rw [Bool.not_eq_false] at hc
          rw [List.takeWhile_cons, if_pos hc] at hnone
          cases hnone
        have hend : (c != 10) = false := by
          rw [inField, show (c != 32) = true by rw [bne, show (c == 32) = false from hblank]; rfl,
            Bool.true_and] at hc
          exact hc
        rw [fieldsOf, List.takeWhile_cons, if_neg (by rw [hend]; decide), words_nil]
  · rw [if_neg hnone]
    have hsplit : p.takeWhile (· != 10) =
        p.takeWhile inField ++ (p.dropWhile inField).takeWhile (· != 10) := by
      conv_lhs => rw [← List.takeWhile_append_dropWhile (p := inField) (l := p)]
      rw [List.takeWhile_append_of_pos]
      intro c hc
      have hin := List.mem_takeWhile_imp hc
      rw [inField, Bool.and_eq_true] at hin
      exact hin.2
    rw [fieldsOf, hsplit, words_word hnone]
    · rfl
    · intro c hc
      have hin := List.mem_takeWhile_imp hc
      rw [inField, Bool.and_eq_true] at hin
      rw [blank, ← Bool.not_eq_true']
      exact hin.1
    · intro c hc
      cases hrest : p.dropWhile inField with
      | nil =>
          rw [hrest] at hc
          cases hc
      | cons d rest =>
          have hstop : inField d = false := by
            have hne : p.dropWhile inField ≠ [] := by
              rw [hrest]
              exact List.cons_ne_nil _ _
            have hhead := List.head_dropWhile_not inField hne
            simp only [hrest, List.head_cons] at hhead
            exact hhead
          rw [hrest, List.takeWhile_cons] at hc
          split at hc
          · next hd =>
              cases hc
              rw [inField, hd, Bool.and_true] at hstop
              rw [blank]
              simpa using hstop
          · cases hc

/-! ## One turn of the loop -/

/-- A number of 64 bits, in digits. -/
def decimalOf (w : Bytes) : Option Nat :=
  if w ≠ [] ∧ w.all isDigit = true ∧ ofDigits w < 2 ^ 64 then some (ofDigits w) else none

/-- The fields whose numbers are taken. -/
def counted (field : Nat) : Prop := field = 14 ∨ field = 15 ∨ field = 22 ∨ field = 24

instance (field : Nat) : Decidable (counted field) := by
  unfold counted
  infer_instance

theorem digit_inField {c : UInt8} (h : isDigit c = true) : inField c = true := by
  have hmem := isDigit_mem h
  have hall : ∀ d ∈ ([48, 49, 50, 51, 52, 53, 54, 55, 56, 57] : List UInt8), inField d = true := by
    decide
  exact hall c hmem

/-- The digits at the start of a field end with it exactly if there is nothing else in it. -/
theorem dropWhile_digits {q : Bytes} :
    q.dropWhile isDigit = q.dropWhile inField ↔ (q.takeWhile inField).all isDigit = true := by
  induction q with
  | nil => exact ⟨fun _ => rfl, fun _ => rfl⟩
  | cons c q ih =>
      by_cases hd : isDigit c = true
      · have hin := digit_inField hd
        rw [List.dropWhile_cons, if_pos hd, List.dropWhile_cons, if_pos hin, List.takeWhile_cons,
          if_pos hin, List.all_cons, hd, Bool.true_and]
        exact ih
      · rw [List.dropWhile_cons, if_neg hd, List.dropWhile_cons, List.takeWhile_cons]
        by_cases hin : inField c = true
        · rw [if_pos hin, if_pos hin, List.all_cons]
          rw [Bool.not_eq_true] at hd
          rw [hd, Bool.false_and]
          refine ⟨fun h => ?_, fun h => absurd h (by decide)⟩
          have hlen := congrArg List.length h
          have hle := (List.dropWhile_suffix inField (l := q)).length_le
          rw [List.length_cons] at hlen
          omega
        · rw [if_neg hin, if_neg hin]
          exact ⟨fun _ => rfl, fun _ => rfl⟩

theorem takeWhile_digits {q : Bytes} (h : (q.takeWhile inField).all isDigit = true) :
    q.takeWhile isDigit = q.takeWhile inField := by
  have hdrop := dropWhile_digits.mpr h
  have hq : q.takeWhile isDigit ++ q.dropWhile isDigit =
      q.takeWhile inField ++ q.dropWhile inField := by
    rw [List.takeWhile_append_dropWhile, List.takeWhile_append_dropWhile]
  rw [hdrop] at hq
  exact List.append_cancel_right hq

/-- Without a word there is no field; with one, the loop goes on behind it. -/
theorem parseField_words (field : Nat) (p : Bytes) (c : Counters) :
    (fieldsOf p = [] ∧ parseField field p c = none) ∨
      ∃ w stop, fieldsOf p = w :: fieldsOf stop ∧ parseField field p c =
        if counted field then (decimalOf w).map fun n => (stop, c.set field n)
        else some (stop, c) := by
  have hblank : p.dropWhile (· == 32) = p.dropWhile blank := rfl
  have hfields := fieldsOf_field (List.dropWhile_idempotent blank p)
  rw [fieldsOf_dropWhile] at hfields
  generalize hq : p.dropWhile blank = q at hfields
  have hsplit := List.takeWhile_append_dropWhile (p := inField) (l := q)
  have hstop : q.dropWhile (fun c => c != 32 && c != 10) = q.dropWhile inField := rfl
  unfold parseField
  simp only [hblank, hq, hstop]
  by_cases hw : q.takeWhile inField = []
  · rw [if_pos hw] at hfields
    rw [hw, List.nil_append] at hsplit
    exact .inl ⟨hfields, if_pos hsplit.symm⟩
  · rw [if_neg hw] at hfields
    have hne : ¬ q = q.dropWhile inField := by
      intro h
      rw [← h] at hsplit
      exact hw (List.append_left_eq_self.mp hsplit)
    refine .inr ⟨_, _, hfields, ?_⟩
    rw [if_neg hne]
    by_cases hcount : counted field
    case neg =>
      rw [if_neg hcount]
      exact if_neg hcount
    rw [if_pos hcount, if_pos (show field = 14 ∨ field = 15 ∨ field = 22 ∨ field = 24 from hcount)]
    by_cases hall : (q.takeWhile inField).all isDigit = true
    · have hhead : (q.head?).any isDigit = true := by
        obtain ⟨d, w, hdw⟩ := List.exists_cons_of_ne_nil hw
        rw [hdw, List.all_cons, Bool.and_eq_true] at hall
        rw [← hsplit, hdw]
        exact hall.1
      rw [if_pos hhead]
      simp only [strtoull, takeWhile_digits hall, dropWhile_digits.mpr hall, ne_eq,
        not_true_eq_false, or_false, decide_eq_true_eq, decimalOf]
      by_cases hbig : 2 ^ 64 ≤ ofDigits (q.takeWhile inField)
      · rw [if_pos hbig, if_neg (fun h => by omega)]
        rfl
      · rw [if_neg hbig, if_pos ⟨hw, hall, by omega⟩, Nat.min_eq_left (by omega)]
        rfl
    · have hnumber : decimalOf (q.takeWhile inField) = none := if_neg fun h => hall h.2.1
      rw [hnumber, Option.map_none]
      split
      · have hparsed : ¬ q.dropWhile isDigit = q.dropWhile inField :=
          fun h => hall (dropWhile_digits.mp h)
        exact if_pos (Or.inr hparsed)
      · rfl

/-! ## All fields -/

/-- The loop, over the words of the line. -/
def takeFields : List Nat → List Bytes → Counters → Option Counters
  | [], _, c => some c
  | _ :: _, [], _ => none
  | field :: fields, w :: ws, c =>
      if counted field then (decimalOf w).bind fun n => takeFields fields ws (c.set field n)
      else takeFields fields ws c

theorem parseFields_words (fields : List Nat) :
    ∀ (p : Bytes) (c : Counters), parseFields fields p c = takeFields fields (fieldsOf p) c := by
  induction fields with
  | nil =>
      intro p c
      rw [parseFields, takeFields]
  | cons field fields ih =>
      intro p c
      rw [parseFields]
      rcases parseField_words field p c with ⟨hnone, hparse⟩ | ⟨w, stop, hfields, hparse⟩
      · rw [hparse, hnone, takeFields]
      · rw [hparse, hfields, takeFields]
        by_cases hcount : counted field
        · rw [if_pos hcount, if_pos hcount]
          cases decimalOf w with
          | none => rfl
          | some n => exact ih stop (c.set field n)
        · rw [if_neg hcount, if_neg hcount]
          exact ih stop c

/-- Fields that are any word. -/
theorem takeFields_skip {fields : List Nat} (h : ∀ f ∈ fields, ¬ counted f) (rest : List Nat) :
    ∀ (ws : List Bytes) (c : Counters), takeFields (fields ++ rest) ws c =
      if fields.length ≤ ws.length then takeFields rest (ws.drop fields.length) c else none := by
  induction fields with
  | nil => exact fun ws c => (if_pos (Nat.zero_le _)).symm
  | cons f fields ih =>
      intro ws c
      cases ws with
      | nil => rfl
      | cons w ws =>
          rw [List.cons_append, takeFields, if_neg (h f List.mem_cons_self),
            ih fun f hf => h f (List.mem_cons_of_mem _ hf)]
          simp only [List.length_cons, Nat.add_le_add_iff_right, List.drop_succ_cons]

/-- A field that is a number. -/
theorem takeFields_number {field : Nat} (h : counted field) (rest : List Nat) (ws : List Bytes)
    (c : Counters) : takeFields (field :: rest) ws c =
      (ws[0]?.bind decimalOf).bind fun n => takeFields rest (ws.drop 1) (c.set field n) := by
  cases ws with
  | nil => rfl
  | cons w ws =>
      rw [takeFields, if_pos h]
      rfl

/-- Twenty-two words, and the numbers at the places of four of them. -/
structure Fields (ws : List Bytes) (c : Counters) : Prop where
  count : 22 ≤ ws.length
  user : ws[14 - 3]?.bind decimalOf = some c.user
  system : ws[15 - 3]?.bind decimalOf = some c.system
  start : ws[22 - 3]?.bind decimalOf = some c.start
  pages : ws[24 - 3]?.bind decimalOf = some c.pages

theorem takeFields_iff (ws : List Bytes) (c : Counters) :
    takeFields (List.range' 3 22) ws {} = some c ↔ Fields ws c := by
  have hsplit : List.range' 3 22 =
      List.range' 3 11 ++ 14 :: 15 :: (List.range' 16 6 ++ 22 :: ([23] ++ [24])) := by decide
  have hlen : ∀ s n, (List.range' s n).length = n := fun s n => List.length_range'
  have hfirst : ∀ f ∈ List.range' 3 11, ¬ counted f := by decide
  have hsecond : ∀ f ∈ List.range' 16 6, ¬ counted f := by decide
  have hthird : ∀ f ∈ [23], ¬ counted f := by decide
  rw [hsplit, takeFields_skip hfirst]
  simp only [takeFields_number (show counted 14 by decide), takeFields_number (show counted 15 by decide),
    takeFields_number (show counted 22 by decide), takeFields_number (show counted 24 by decide),
    takeFields_skip hsecond, takeFields_skip hthird, hlen, List.length_singleton, List.drop_drop,
    List.getElem?_drop, List.length_drop, takeFields]
  constructor
  · intro h
    split at h
    · next h₁ =>
        obtain ⟨user, huser, h⟩ := Option.bind_eq_some_iff.mp h
        obtain ⟨system, hsystem, h⟩ := Option.bind_eq_some_iff.mp h
        split at h
        · next h₂ =>
            obtain ⟨start, hstart, h⟩ := Option.bind_eq_some_iff.mp h
            split at h
            · next h₃ =>
                obtain ⟨pages, hpages, h⟩ := Option.bind_eq_some_iff.mp h
                cases h
                have hlast : ws[21]? ≠ none := by
                  intro hno
                  rw [show (11 + (1 + (1 + (6 + (1 + 1)))) + 0 : Nat) = 21 from rfl, hno] at hpages
                  cases hpages
                have hcount : 22 ≤ ws.length := by
                  by_contra hno
                  exact hlast (List.getElem?_eq_none (by omega))
                exact ⟨hcount, huser, hsystem, hstart, hpages⟩
            · cases h
        · cases h
    · cases h
  · rintro ⟨hcount, huser, hsystem, hstart, hpages⟩
    rw [if_pos (by omega)]
    refine Option.bind_eq_some_iff.mpr ⟨_, huser, Option.bind_eq_some_iff.mpr ⟨_, hsystem, ?_⟩⟩
    rw [if_pos (by omega)]
    refine Option.bind_eq_some_iff.mpr ⟨_, hstart, ?_⟩
    rw [if_pos (by omega)]
    exact Option.bind_eq_some_iff.mpr ⟨_, hpages, rfl⟩

/-! ## The line -/

theorem strrchr_none {c : UInt8} {s : Bytes} : strrchr c s = none ↔ c ∉ s := by
  induction s with
  | nil => exact ⟨fun _ => List.not_mem_nil, fun _ => rfl⟩
  | cons x s ih =>
      rw [strrchr, List.mem_cons, not_or]
      cases hs : strrchr c s with
      | some t =>
          refine ⟨fun h => (by cases h), fun h => ?_⟩
          exact absurd ((ih.mpr h.2).symm.trans hs) (by simp)
      | none =>
          have hnot := ih.mp hs
          simp only []
          split
          · next hx => exact ⟨fun h => (by cases h), fun h => absurd hx.symm h.1⟩
          · next hx => exact ⟨fun _ => ⟨Ne.symm hx, hnot⟩, fun _ => rfl⟩

/-- From the last one on. -/
theorem strrchr_some {c : UInt8} {s p : Bytes} : strrchr c s = some p ↔
    ∃ front rest, s = front ++ c :: rest ∧ c ∉ rest ∧ p = c :: rest := by
  induction s with
  | nil =>
      refine ⟨fun h => (by cases h), ?_⟩
      rintro ⟨front, rest, h, -⟩
      exact absurd h (by simp)
  | cons x s ih =>
      rw [strrchr]
      cases hs : strrchr c s with
      | some t =>
          rw [hs] at ih
          simp only []
          rw [ih]
          constructor
          · rintro ⟨front, rest, rfl, hrest, hp⟩
            exact ⟨x :: front, rest, rfl, hrest, hp⟩
          · rintro ⟨front, rest, h, hrest, hp⟩
            cases front with
            | nil =>
                cases h
                exact absurd ((strrchr_none.mpr hrest).symm.trans hs) (by simp)
            | cons y front =>
                cases h
                exact ⟨front, rest, rfl, hrest, hp⟩
      | none =>
          have hnot := strrchr_none.mp hs
          simp only []
          constructor
          · intro h
            split at h
            · next hx =>
                cases h
                exact ⟨[], s, by rw [hx]; rfl, hnot, by rw [hx]⟩
            · cases h
          · rintro ⟨front, rest, h, hrest, rfl⟩
            cases front with
            | nil =>
                cases h
                exact if_pos rfl
            | cons y front =>
                cases h
                exact absurd (List.mem_append_right _ List.mem_cons_self) hnot

/-- The line parses: behind its last closing parenthesis there are a blank and the fields,
whatever stands in front. -/
def Says (stat : Bytes) (c : Counters) : Prop :=
  ∃ front rest, cstr stat = front ++ 41 :: 32 :: rest ∧ 41 ∉ rest ∧ Fields (fieldsOf rest) c

/-- What the parser has of a line before it converts it. -/
def countersOf (stat : Bytes) : Option Counters :=
  (strrchr 41 (cstr stat)).bind fun p =>
    if p[1]? = some 32 then parseFields (List.range' 3 22) (p.drop 2) {} else none

theorem countersOf_iff (stat : Bytes) (c : Counters) : countersOf stat = some c ↔ Says stat c := by
  rw [countersOf, Option.bind_eq_some_iff]
  constructor
  · rintro ⟨p, hp, h⟩
    obtain ⟨front, rest, hstat, hrest, rfl⟩ := strrchr_some.mp hp
    split at h
    · next hblank =>
        cases rest with
        | nil => cases hblank
        | cons x rest =>
            cases hblank
            rw [List.mem_cons, not_or] at hrest
            rw [parseFields_words, takeFields_iff] at h
            exact ⟨front, rest, hstat, hrest.2, h⟩
    · cases h
  · rintro ⟨front, rest, hstat, hrest, hfields⟩
    refine ⟨41 :: 32 :: rest, strrchr_some.mpr ⟨front, 32 :: rest, hstat, ?_, rfl⟩, ?_⟩
    · rw [List.mem_cons, not_or]
      exact ⟨by decide, hrest⟩
    · rw [if_pos (show (41 :: 32 :: rest)[1]? = some 32 from rfl), parseFields_words,
        takeFields_iff]
      exact hfields

/-! ## The conversion -/

/-- The CPU time in nanoseconds. -/
def exactNs (c : Counters) (hz : Nat) : Nat := (c.user + c.system) * 1000000000 / hz

/-- Quotient and remainder, scaled apart. -/
theorem scaled {ticks hz : Nat} (hhz : 0 < hz) (n : Nat) :
    ticks / hz * n + ticks % hz * n / hz = ticks * n / hz := by
  have hdiv := Nat.div_add_mod ticks hz
  have hwhole : ticks * n = ticks % hz * n + hz * (ticks / hz * n) := by
    conv_lhs => rw [← hdiv]
    ring
  rw [hwhole, Nat.add_mul_div_left _ _ hhz, Nat.add_comm]

/-- What of the fields fits in 64 bits before the last addition. -/
structure Fits (c : Counters) (hz page : Nat) : Prop where
  ticks : c.user + c.system < 2 ^ 64
  rss : c.pages * page < 2 ^ 64
  seconds : (c.user + c.system) / hz * 1000000000 < 2 ^ 64

/-- The parser, in terms of the line's numbers. -/
theorem parse_eq {stat : Bytes} {hz page : Nat} {sample : ProcessSample} (hhz : 0 < hz)
    (hscale : hz * 1000000000 < 2 ^ 64) (hpage : 0 < page) :
    (countersOf stat = none ∧ appProcessParseLinux stat hz page sample = (false, sample)) ∨
      ∃ c, countersOf stat = some c ∧
        ((¬ Fits c hz page ∧ appProcessParseLinux stat hz page sample = (false, sample)) ∨
        (Fits c hz page ∧ 2 ^ 64 ≤ exactNs c hz ∧ appProcessParseLinux stat hz page sample =
          (false, { sample with cpuNs := exactNs c hz % 2 ^ 64 })) ∨
        (Fits c hz page ∧ exactNs c hz < 2 ^ 64 ∧ appProcessParseLinux stat hz page sample =
          (true, { sample with
            identity := c.start, cpuNs := exactNs c hz, rss := c.pages * page }))) := by
  unfold appProcessParseLinux countersOf
  cases hp : strrchr 41 (cstr stat) with
  | none => exact .inl ⟨rfl, rfl⟩
  | some p =>
      simp only [Option.bind_some]
      by_cases hblank : p[1]? = some 32
      case neg =>
        rw [if_neg hblank, if_pos (.inl hblank)]
        exact .inl ⟨rfl, rfl⟩
      rw [if_pos hblank, if_neg (by
        rintro (h | h | h)
        · exact h hblank
        · omega
        · omega)]
      cases hc : parseFields (List.range' 3 22) (p.drop 2) {} with
      | none => exact .inl ⟨rfl, rfl⟩
      | some c =>
          refine .inr ⟨c, rfl, ?_⟩
          have hmod := Nat.mod_lt (c.user + c.system) hhz
          have hremainder : (c.user + c.system) % hz * 1000000000 < 2 ^ 64 :=
            Nat.lt_of_le_of_lt (Nat.mul_le_mul_right _ (Nat.le_of_lt hmod)) hscale
          have hexact : (c.user + c.system) / hz * 1000000000 +
              (c.user + c.system) % hz * 1000000000 / hz = exactNs c hz := scaled hhz 1000000000
          simp only []
          by_cases hfits : Fits c hz page
          · have h₁ := hfits.ticks
            have h₂ := hfits.rss
            have h₃ := hfits.seconds
            rw [if_neg (by omega), hexact]
            by_cases hbig : 2 ^ 64 ≤ exactNs c hz
            · rw [if_pos hbig]
              exact .inr (.inl ⟨hfits, hbig, rfl⟩)
            · rw [if_neg hbig]
              have hlt : exactNs c hz < 2 ^ 64 := by omega
              refine .inr (.inr ⟨hfits, hlt, ?_⟩)
              show (true, { sample with
                identity := c.start, cpuNs := exactNs c hz % 2 ^ 64, rss := c.pages * page }) = _
              rw [Nat.mod_eq_of_lt hlt]
          · have hover : 2 ^ 64 ≤ c.user + c.system ∨ 2 ^ 64 ≤ c.pages * page ∨
                2 ^ 64 ≤ (c.user + c.system) / hz * 1000000000 ∨
                2 ^ 64 ≤ (c.user + c.system) % hz * 1000000000 := by
              by_contra hno
              rw [not_or, not_or, not_or] at hno
              exact hfits ⟨Nat.lt_of_not_le hno.1, Nat.lt_of_not_le hno.2.1,
                Nat.lt_of_not_le hno.2.2.1⟩
            refine .inl ⟨hfits, ?_⟩
            rw [if_pos hover]

/-! ## The law of the parser -/

/-- It returns true exactly if the fields parse and the sum, the exact time and the exact size
fit in 64 bits; then the sample has them, and else it is as before. -/
structure Lawful (stat : Bytes) (hz page : Nat) (sample : ProcessSample) : Prop where
  returns : (appProcessParseLinux stat hz page sample).1 = true ↔
    ∃ c, Says stat c ∧ c.user + c.system < 2 ^ 64 ∧ exactNs c hz < 2 ^ 64 ∧ c.pages * page < 2 ^ 64
  exactly : (appProcessParseLinux stat hz page sample).1 = true →
    ∃ c, Says stat c ∧ (appProcessParseLinux stat hz page sample).2 =
      { sample with identity := c.start, cpuNs := exactNs c hz, rss := c.pages * page }
  unchanged : (appProcessParseLinux stat hz page sample).1 = false →
    (appProcessParseLinux stat hz page sample).2 = sample

/-- Everything fits but the sum of the whole seconds and the rest, and the sample does not
happen to hold what is left of it. -/
def Spills (stat : Bytes) (hz page : Nat) (sample : ProcessSample) : Prop :=
  ∃ c, Says stat c ∧ Fits c hz page ∧ 2 ^ 64 ≤ exactNs c hz ∧
    sample.cpuNs ≠ exactNs c hz % 2 ^ 64

theorem Says.unique {stat : Bytes} {c c' : Counters} (h : Says stat c) (h' : Says stat c') :
    c = c' := by
  have heq := ((countersOf_iff stat c).mpr h).symm.trans ((countersOf_iff stat c').mpr h')
  exact Option.some.inj heq

/-- For every line, every clock rate and every page size, the parser keeps its law exactly if
the last addition does not spill. -/
theorem parse_lawful_iff {hz page : Nat} (hhz : 1 ≤ hz) (hscale : hz * 1000000000 < 2 ^ 64)
    (hpage : 1 ≤ page) (stat : Bytes) (sample : ProcessSample) :
    Lawful stat hz page sample ↔ ¬ Spills stat hz page sample := by
  rcases @parse_eq stat hz page sample hhz hscale hpage with
    ⟨hnone, hparse⟩ | ⟨c, hc, ⟨hno, hparse⟩ | ⟨hfits, hbig, hparse⟩ | ⟨hfits, hlt, hparse⟩⟩
  · have hread : ∀ c, ¬ Says stat c := fun c hs => by
      rw [← countersOf_iff, hnone] at hs
      cases hs
    refine ⟨fun _ ⟨c, hs, _⟩ => hread c hs, fun _ => ⟨?_, ?_, ?_⟩⟩
    · rw [hparse]
      exact ⟨fun h => (by cases h), fun ⟨c, hs, _⟩ => absurd hs (hread c)⟩
    · rw [hparse]
      exact fun h => (by cases h)
    · rw [hparse]
      exact fun _ => rfl
  · have hs := (countersOf_iff stat c).mp hc
    have hover : ∀ c', Says stat c' → ¬ Fits c' hz page := fun c' hs' => by
      rw [← hs.unique hs']
      exact hno
    have hseconds : ∀ c' : Counters, exactNs c' hz < 2 ^ 64 →
        (c'.user + c'.system) / hz * 1000000000 < 2 ^ 64 := by
      intro c' hlt
      rw [exactNs, ← scaled hhz] at hlt
      exact Nat.lt_of_le_of_lt (Nat.le_add_right _ _) hlt
    refine ⟨fun _ ⟨c', hs', hfits, _⟩ => hover c' hs' hfits, fun _ => ⟨?_, ?_, ?_⟩⟩
    · rw [hparse]
      refine ⟨fun h => (by cases h), fun ⟨c', hs', hticks, hexact, hrss⟩ => ?_⟩
      exact absurd ⟨hticks, hrss, hseconds c' hexact⟩ (hover c' hs')
    · rw [hparse]
      exact fun h => (by cases h)
    · rw [hparse]
      exact fun _ => rfl
  · have hs := (countersOf_iff stat c).mp hc
    constructor
    · rintro hlaw ⟨c', hs', -, -, hne⟩
      have hsame := hlaw.unchanged (by rw [hparse])
      rw [hparse] at hsame
      have hcpu : exactNs c hz % 2 ^ 64 = sample.cpuNs := congrArg ProcessSample.cpuNs hsame
      rw [← hs.unique hs'] at hne
      exact hne hcpu.symm
    · intro hspill
      have heq : sample.cpuNs = exactNs c hz % 2 ^ 64 := by
        by_contra hne
        exact hspill ⟨c, hs, hfits, hbig, hne⟩
      refine ⟨?_, ?_, ?_⟩
      · rw [hparse]
        refine ⟨fun h => (by cases h), fun ⟨c', hs', _, hexact, _⟩ => ?_⟩
        rw [← hs.unique hs'] at hexact
        omega
      · rw [hparse]
        exact fun h => (by cases h)
      · rw [hparse, ← heq]
        exact fun _ => rfl
  · have hs := (countersOf_iff stat c).mp hc
    constructor
    · rintro - ⟨c', hs', -, hbig, -⟩
      rw [← hs.unique hs'] at hbig
      omega
    · intro _
      refine ⟨?_, ?_, ?_⟩
      · rw [hparse]
        exact ⟨fun _ => ⟨c, hs, hfits.ticks, hlt, hfits.rss⟩, fun _ => rfl⟩
      · rw [hparse]
        exact fun _ => ⟨c, hs, rfl⟩
      · rw [hparse]
        exact fun h => (by cases h)

/-- A worker that used a second and a half, on a kernel with a hundred ticks a second. -/
def workerLine : Bytes :=
  lit "42 (model ) worker) S 1 2 3 4 5 6 7 8 9 10 125 25 -1 -1 20 0 4 0 4567 100000 32 0\n"

theorem parse_lawful_worker :
    Lawful workerLine 100 4096 {} ↔ ¬ Spills workerLine 100 4096 {} :=
  parse_lawful_iff (by decide) (by decide) (by decide) workerLine {}

example : appProcessParseLinux workerLine 100 4096 {} =
    (true, { identity := 4567, cpuNs := 1500000000, rss := 131072 }) := by decide +kernel

/-- A line with so many ticks that the whole seconds still fit and the sum does not. -/
def spillingLine : Bytes :=
  lit "1 (x) S 1 2 3 4 5 6 7 8 9 10 1844674407371 0 -1 -1 20 0 4 0 7 100000 32 0\n"

/-- The parser fails on it, and the caller's sample is another. -/
theorem spillingLine_unlawful :
    ¬ ∀ stat hz page sample, 1 ≤ hz → hz * 1000000000 < 2 ^ 64 → 1 ≤ page →
      Lawful stat hz page sample := by
  intro h
  have hlaw := h spillingLine 100 4096 {} (by decide) (by decide) (by decide)
  have hrun : appProcessParseLinux spillingLine 100 4096 {} =
      (false, { cpuNs := 448384 }) := by decide +kernel
  have hsame := hlaw.unchanged (by rw [hrun])
  rw [hrun] at hsame
  exact absurd hsame (by decide)

end GeistServe.App
