import GeistServe.Proofs.Compaction
import GeistServe.Proofs.Durability

/-!
# Where a compaction splits the history

The export is cut at the first line start that leaves no more than a segment for
the newer part. `seekLine_least` says that the search finds the first line start
there is from its offset on, so when even this one leaves too much for the older
part, there is no other that would do: a compaction fails only where no cut at a
line start exists.

Nothing is assumed of the lines but that each ends in a newline, so the export
here is any text of whole lines.
-/

namespace GeistServe.Proofs

open GeistServe.Lib GeistServe.Perf

variable {C : Codec}

/-! ## Line starts -/

/-- The search stops at a line start, or at the end, and passes none. By induction
on what is ahead, with the byte before it generalised. -/
theorem seekLine_least (rest : Bytes) : ∀ prev : UInt8, ∃ as bs, rest = as ++ bs ∧
    as.length = seekLine prev rest ∧ ((prev :: as).getLast? = some newline ∨ bs = []) ∧
    ∀ as' bs', rest = as' ++ bs' → (prev :: as').getLast? = some newline →
      as.length ≤ as'.length := by
  induction rest with
  | nil => exact fun prev => ⟨[], [], rfl, rfl, .inr rfl, fun _ _ _ _ => Nat.zero_le _⟩
  | cons b rest ih =>
      intro prev
      by_cases hprev : prev = newline
      · refine ⟨[], b :: rest, rfl, ?_, .inl (by simp [hprev]), fun _ _ _ _ => Nat.zero_le _⟩
        rw [seekLine, if_pos hprev, List.length_nil]
      · obtain ⟨as, bs, hrest, hlen, hstart, hleast⟩ := ih b
        refine ⟨b :: as, bs, by rw [hrest, List.cons_append], ?_, ?_, ?_⟩
        · rw [seekLine, if_neg hprev, List.length_cons, hlen]
        · rwa [List.getLast?_cons_cons]
        · intro as' bs' hsplit hend
          cases as' with
          | nil =>
              simp only [List.getLast?_singleton, Option.some.injEq] at hend
              exact absurd hend hprev
          | cons b' as' =>
              rw [List.cons_append, List.cons.injEq] at hsplit
              obtain ⟨rfl, hsplit⟩ := hsplit
              rw [List.getLast?_cons_cons] at hend
              have hle := hleast as' bs' hsplit hend
              rw [List.length_cons, List.length_cons]
              omega

/-- Two texts of whole lines that a segment can take each, and that together are
the data. -/
structure Halves (data as bs : Bytes) : Prop where
  whole : as ++ bs = data
  older : Sealed as
  newer : Sealed bs
  olderFits : as.length ≤ SEGMENT_BYTES
  newerFits : bs.length ≤ SEGMENT_BYTES

/-- The end of whole lines is whole lines. -/
theorem sealed_right {as bs : Bytes} (h : Sealed (as ++ bs)) : Sealed bs := by
  rcases h with h | h
  · exact .inl (List.append_eq_nil_iff.mp h).2
  · cases bs with
    | nil => exact .inl rfl
    | cons b bs =>
        right
        rwa [List.getLast?_append_of_ne_nil _ (List.cons_ne_nil b bs)] at h

theorem splitAt_least {data : Bytes} (hdata : Sealed data) :
    splitAt data ≤ data.length ∧ Sealed (data.take (splitAt data)) ∧
      data.length - splitAt data ≤ SEGMENT_BYTES ∧
      ∀ as bs, as ++ bs = data → Sealed as → bs.length ≤ SEGMENT_BYTES →
        splitAt data ≤ as.length := by
  by_cases hsmall : data.length ≤ SEGMENT_BYTES
  · rw [splitAt, if_pos hsmall]
    exact ⟨Nat.zero_le _, .inl List.take_zero, by omega, fun _ _ _ _ _ => Nat.zero_le _⟩
  · -- The byte before the offset, and what is ahead of it.
    obtain ⟨k, hk⟩ := Nat.exists_eq_add_one_of_ne_zero
      (Nat.sub_ne_zero_of_lt (Nat.lt_of_not_le hsmall))
    have hlt : k < data.length := by omega
    have hget : data.getD k 0 = data[k] := by
      rw [List.getD_eq_getElem?_getD, List.getElem?_eq_getElem hlt, Option.getD_some]
    have hparts : data = data.take k ++ data[k] :: data.drop (k + 1) := by
      rw [← List.drop_eq_getElem_cons hlt, List.take_append_drop]
    have hfront : (data.take k).length = k := by
      rw [List.length_take]
      omega
    obtain ⟨as, bs, hrest, hlen, hstart, hleast⟩ :=
      seekLine_least (data.drop (k + 1)) data[k]
    have hsplit : splitAt data = k + 1 + as.length := by
      rw [splitAt, if_neg hsmall]
      simp only [hk, Nat.add_sub_cancel]
      rw [hget, hlen]
    rw [hrest] at hparts
    have hall : data = (data.take k ++ data[k] :: as) ++ bs := by
      rw [List.append_assoc, List.cons_append, ← hparts]
    have hcount : (data.take k ++ data[k] :: as).length = splitAt data := by
      rw [List.length_append, hfront, List.length_cons, hsplit]
      omega
    have htotal := congrArg List.length hall
    rw [List.length_append, hcount] at htotal
    have htake : data.take (splitAt data) = data.take k ++ data[k] :: as := by
      have hleft : (data.take k ++ data[k] :: as ++ bs).take (data.take k ++ data[k] :: as).length =
          data.take k ++ data[k] :: as := List.take_left
      rwa [← hall, hcount] at hleft
    refine ⟨by omega, ?_, by omega, ?_⟩
    · rw [htake]
      rcases hstart with hstart | rfl
      · right
        rwa [List.getLast?_append_of_ne_nil _ (List.cons_ne_nil _ _)]
      · rw [List.append_nil] at hall
        rwa [← hall]
    · intro as' bs' hsplit' hsealed hfits
      have hlen' := congrArg List.length hsplit'
      rw [List.length_append] at hlen'
      -- The other cut is at or behind the offset.
      have hge : k + 1 ≤ as'.length := by omega
      have hfirst : as' = data.take k ++ data[k] :: as'.drop (k + 1) := by
        have htake' : as'.take (k + 1) = data.take (k + 1) := by
          rw [← hsplit', List.take_append_of_le_length hge]
        have hcons : data.take (k + 1) = data.take k ++ [data[k]] :=
          List.take_succ_eq_append_getElem hlt
        calc as' = as'.take (k + 1) ++ as'.drop (k + 1) := (List.take_append_drop ..).symm
          _ = data.take k ++ data[k] :: as'.drop (k + 1) := by
              rw [htake', hcons, List.append_assoc]
              rfl
      have hdrop : data.drop (k + 1) = as'.drop (k + 1) ++ bs' := by
        rw [← hsplit', List.drop_append_of_le_length hge]
      have hend : (data[k] :: as'.drop (k + 1)).getLast? = some newline := by
        rcases hsealed with hnil | hlast
        · rw [hnil] at hge
          simp at hge
        · rw [hfirst, List.getLast?_append_of_ne_nil _ (List.cons_ne_nil _ _)] at hlast
          exact hlast
      have hle := hleast _ _ hdrop hend
      rw [List.length_drop] at hle
      omega

/-- The split is good wherever there is one. -/
theorem halves_of_splitAt {data : Bytes} (hdata : Sealed data)
    (hle : splitAt data ≤ SEGMENT_BYTES) :
    Halves data (data.take (splitAt data)) (data.drop (splitAt data)) := by
  obtain ⟨_, hfirst, hrest, _⟩ := splitAt_least hdata
  refine ⟨List.take_append_drop .., hfirst, ?_, ?_, ?_⟩
  · rw [← List.take_append_drop (splitAt data) data] at hdata
    exact sealed_right hdata
  · rw [List.length_take]
    omega
  · rwa [List.length_drop]

theorem splitAt_of_halves {data as bs : Bytes} (hdata : Sealed data) (h : Halves data as bs) :
    splitAt data ≤ SEGMENT_BYTES :=
  ((splitAt_least hdata).2.2.2 as bs h.whole h.older h.newerFits).trans h.olderFits

/-! ## compact_history -/

/-- Lines that end in newlines are whole lines. -/
theorem sealed_lines {ls : List Bytes} (h : ∀ l ∈ ls, l.getLast? = some newline) :
    Sealed ls.flatten := by
  induction ls with
  | nil => exact .inl rfl
  | cons l ls ih =>
      rw [List.flatten_cons]
      rcases ih fun l hl => h l (List.mem_cons_of_mem _ hl) with hnil | hlast
      · rw [hnil, List.append_nil]
        exact .inr (h l List.mem_cons_self)
      · right
        rw [List.getLast?_append, hlast, Option.some_or]

/-- Both files are replaced. -/
theorem perform_compactOps {d : Dir Name} (data : Bytes) (hprevious : d .previousTmp = none)
    (hcurrent : d .currentTmp = none) :
    ∃ d', perform none (compactOps data) d = (d', true) ∧
      d' .previous = some (data.take (splitAt data)) ∧
      d' .current = some (data.drop (splitAt data)) := by
  have hstill : replaced d .previousTmp .previous (data.take (splitAt data)) .currentTmp = none :=
    hcurrent
  refine ⟨replaced (replaced d .previousTmp .previous (data.take (splitAt data))) .currentTmp
    .current (data.drop (splitAt data)), ?_, rfl, rfl⟩
  rw [compactOps, perform_replace_all hprevious]
  have hsecond := @perform_replace_all Name _ .currentTmp .current (data.drop (splitAt data)) _
    hstill []
  rwa [List.append_nil] at hsecond

/-- The compaction of an export of whole lines. If the text can be cut at a line
start into two parts that fit, it writes two such parts; otherwise it fails and
has written nothing. -/
theorem compaction_splits {j : Journal C} {data : Bytes}
    (hdata : exportData (exported j) = some data)
    (hlines : ∀ r ∈ exported j, (C.line r).getLast? = some newline)
    (hprevious : j.dir .previousTmp = none) (hcurrent : j.dir .currentTmp = none) (cleans : Bool) :
    ((∃ as bs, Halves data as bs) → compactReturns j true none = true ∧
      ∃ as bs, Halves data as bs ∧ (compactHistory j true none cleans).dir .previous = some as ∧
        (compactHistory j true none cleans).dir .current = some bs) ∧
    ((¬ ∃ as bs, Halves data as bs) → compactReturns j true none = false ∧
      (compactHistory j true none cleans).dir = j.dir) := by
  have hsealed : Sealed data := by
    unfold exportData at hdata
    simp only at hdata
    split_ifs at hdata
    cases hdata
    refine sealed_lines fun l hl => ?_
    obtain ⟨r, hr, rfl⟩ := List.mem_map.mp hl
    exact hlines r hr
  have hgives : compactData C j.now j.days j.st.recs =
      if splitAt data > SEGMENT_BYTES then none else some data := by
    unfold exported at hdata
    rw [compactData, hdata, Option.bind_some]
  unfold compactReturns compactHistory
  simp only [if_true, hgives]
  constructor
  · rintro ⟨as, bs, h⟩
    have hle := splitAt_of_halves hsealed h
    obtain ⟨d', hperform, hfirst, hsecond⟩ := perform_compactOps data hprevious hcurrent
    rw [if_neg (Nat.not_lt.mpr hle)]
    simp only [hperform, Bool.not_true, Bool.and_false, Bool.false_eq_true, if_false, true_and]
    exact ⟨_, _, halves_of_splitAt hsealed hle, hfirst, hsecond⟩
  · intro h
    rw [if_pos (Nat.lt_of_not_le fun hle => h ⟨_, _, halves_of_splitAt hsealed hle⟩)]
    exact ⟨rfl, rfl⟩

/-- A store of two records, on an empty directory. -/
def twoRecords : Journal (unary 2) :=
  { emptyJournal (unary 2) with st := { recs := [(0 : Fin 3), (2 : Fin 3)] } }

theorem compaction_splits_two :
    ((∃ as bs, Halves [66, 66, 10, 65, 65, 10] as bs) → compactReturns twoRecords true none = true ∧
      ∃ as bs, Halves [66, 66, 10, 65, 65, 10] as bs ∧
        (compactHistory twoRecords true none true).dir .previous = some as ∧
        (compactHistory twoRecords true none true).dir .current = some bs) ∧
    ((¬ ∃ as bs, Halves [66, 66, 10, 65, 65, 10] as bs) →
      compactReturns twoRecords true none = false ∧
      (compactHistory twoRecords true none true).dir = twoRecords.dir) :=
  compaction_splits rfl (fun r _ => by
    obtain ⟨body, hbody, _⟩ := (LawfulCodec.is_line r).ex
    rw [hbody, List.getLast?_append, List.getLast?_singleton, Option.some_or]) rfl rfl true

end GeistServe.Proofs
