import GeistServe.Proofs.Members

/-!
# Behind the root

`json_parse` refuses a second token without a parent. Behind the brace that closes
the root a token has no parent, unless a colon came first: the colon takes the last
token for a key, and what follows is its child.

Up to that brace nothing can be left open but what is above the last token
(`Nested`), so the brace finds all other tokens closed, in front of it.
-/

namespace GeistServe.Proofs

open GeistServe.Lib GeistServe.Geistd GeistServe.Json

/-! ## The way up -/

/-- Token `k` is token `i`, or above it. -/
inductive Above (ps : List (Option Nat)) : Nat → Nat → Prop where
  | refl (i : Nat) : Above ps i i
  | step {i p k : Nat} (hp : ps[i]? = some (some p)) (h : Above ps p k) : Above ps i k

theorem Above.append {ps : List (Option Nat)} {i k : Nat} (h : Above ps i k)
    (qs : List (Option Nat)) : Above (ps ++ qs) i k := by
  induction h with
  | refl i => exact .refl i
  | @step i p k hp _ ih =>
      have hlt := (List.getElem?_eq_some_iff.mp hp).1
      exact .step ((List.getElem?_append_left hlt).trans hp) ih

/-- The way up from a token that is not the goal leads over its parent. -/
theorem Above.parent {ts : List Tok} {i k : Nat} {t : Tok} (h : Above (parents ts) i k)
    (ht : ts[i]? = some t) (hne : i ≠ k) : ∃ p, t.parent = some p ∧ Above (parents ts) p k := by
  cases h with
  | refl => exact absurd rfl hne
  | @step _ p _ hp h =>
      rw [parents_get ht] at hp
      exact ⟨p, Option.some.inj hp, h⟩

/-- Token `k` is open. -/
def IsOpen (ts : List Tok) (k : Nat) : Prop := ∃ t, ts[k]? = some t ∧ t.stop = none

/-- A closing bracket takes the first open token on the way up; the others are above
it. -/
theorem closed_above {type : JType} {ts : List Tok} {sup : Option Nat} {i k : Nat} {t : Tok}
    (ht : ts[i]? = some t) (hk : IsOpen ts k) (hne : k ≠ i) :
    ∀ {fuel x : Nat}, closed type ts sup fuel x = .ok (some i) → Above (parents ts) x k →
      ∃ p, t.parent = some p ∧ Above (parents ts) p k := by
  intro fuel
  induction fuel with
  | zero =>
      intro x h
      cases h
  | succ fuel ih =>
      intro x h habove
      rw [closed] at h
      split at h
      · cases h
      · next u hu =>
          split at h
          · split at h
            · cases h
            · injection h with h
              injection h with h
              subst h
              exact habove.parent ht fun h => hne h.symm
          · next hstop =>
              have hxk : x ≠ k := by
                rintro rfl
                obtain ⟨v, hv, hopen⟩ := hk
                cases hu.symm.trans hv
                exact hstop hopen
              obtain ⟨p, hp, habove⟩ := habove.parent hu hxk
              rw [hp] at h
              exact ih h habove

/-! ## What is open -/

/-- Everything open is above the last token and above the token above; the tokens
lie in front of the position, in order of the first of them. -/
structure Nested (pos : Nat) (p : Parser) : Prop where
  linked : Linked (parents p.toks) p.toksuper
  last : ∀ k, IsOpen p.toks k → Above (parents p.toks) (p.toks.length - 1) k
  sup : ∀ k, IsOpen p.toks k → ∃ i, p.toksuper = some i ∧ Above (parents p.toks) i k
  bracket : ∀ t ∈ p.toks, t.stop = none → t.type = .array ∨ t.type = .object
  placed : ∀ t ∈ p.toks, t.start ≤ pos ∧ ∀ e, t.stop = some e → e ≤ pos
  first : ∀ t u, p.toks[0]? = some t → u ∈ p.toks → t.start ≤ u.start

theorem Nested.empty : Nested 0 {} where
  linked := ⟨fun k i hk => (by cases hk), fun i hi => (by cases hi)⟩
  last _ h := by obtain ⟨t, ht, _⟩ := h; cases ht
  sup _ h := by obtain ⟨t, ht, _⟩ := h; cases ht
  bracket _ h := nomatch h
  placed _ h := nomatch h
  first _ _ h := nomatch h

theorem addSize_get {ts : List Tok} {i : Option Nat} {k : Nat} {t : Tok}
    (h : (addSize ts i)[k]? = some t) : ∃ u, ts[k]? = some u ∧ t = { u with size := t.size } := by
  cases i with
  | none => exact ⟨t, h, rfl⟩
  | some i =>
      rw [addSize, List.getElem?_modify] at h
      cases hu : ts[k]? with
      | none =>
          rw [hu] at h
          cases h
      | some u =>
          rw [hu] at h
          have ht : (if i = k then { u with size := u.size + 1 } else u) = t := Option.some.inj h
          refine ⟨u, rfl, ?_⟩
          split at ht
          · rw [← ht]
          · rw [← ht]

theorem addSize_length (ts : List Tok) (i : Option Nat) : (addSize ts i).length = ts.length := by
  cases i with
  | none => rfl
  | some i => exact List.length_modify _ _ _

theorem IsOpen.addSize {ts : List Tok} {i : Option Nat} {k : Nat} (h : IsOpen (addSize ts i) k) :
    IsOpen ts k := by
  obtain ⟨t, ht, hstop⟩ := h
  obtain ⟨u, hu, heq⟩ := addSize_get ht
  rw [heq] at hstop
  exact ⟨u, hu, hstop⟩

section

variable {pos : Nat} {ts : List Tok} {sup : Option Nat}

theorem Nested.addSize (h : Nested pos ⟨ts, sup⟩) (i : Option Nat) :
    Nested pos ⟨addSize ts i, sup⟩ := by
  have hmem : ∀ t ∈ Json.addSize ts i, ∃ u ∈ ts, t = { u with size := t.size } := by
    intro t ht
    obtain ⟨k, hk⟩ := List.mem_iff_getElem?.mp ht
    obtain ⟨u, hu, heq⟩ := addSize_get hk
    exact ⟨u, List.mem_of_getElem? hu, heq⟩
  refine ⟨?_, fun k hk => ?_, fun k hk => ?_, fun t ht => ?_, fun t ht => ?_, fun t u ht hu => ?_⟩
  · rw [parents_addSize]
    exact h.linked
  · rw [parents_addSize, addSize_length]
    exact h.last k hk.addSize
  · rw [parents_addSize]
    exact h.sup k hk.addSize
  · obtain ⟨u, hu, heq⟩ := hmem t ht
    rw [heq]
    exact h.bracket u hu
  · obtain ⟨u, hu, heq⟩ := hmem t ht
    rw [heq]
    exact h.placed u hu
  · obtain ⟨v, hv, heq⟩ := hmem u hu
    obtain ⟨w, hw, heq'⟩ := addSize_get ht
    rw [heq, heq']
    exact h.first w v hw hv

theorem IsOpen.append {t : Tok} {k : Nat} (h : IsOpen (ts ++ [t]) k) :
    IsOpen ts k ∨ k = ts.length ∧ t.stop = none := by
  obtain ⟨u, hu, hstop⟩ := h
  rcases Nat.lt_or_ge k ts.length with hlt | hge
  · exact .inl ⟨u, (List.getElem?_append_left hlt).symm.trans hu, hstop⟩
  · have hlen := (List.getElem?_eq_some_iff.mp hu).1
    rw [List.length_append, List.length_singleton] at hlen
    obtain rfl : k = ts.length := by omega
    rw [List.getElem?_concat_length] at hu
    injection hu with hu
    exact .inr ⟨rfl, hu ▸ hstop⟩

/-- A token more: it lies behind the position, and stays open only as a bracket. -/
theorem Nested.push {q : Nat} {t : Tok} {sup' : Option Nat} (h : Nested pos ⟨ts, sup⟩)
    (hparent : t.parent = sup) (hsup : t.stop = none ∧ sup' = some ts.length ∨
      t.stop ≠ none ∧ sup' = sup) (hstart : pos ≤ t.start) (hq : t.start ≤ q)
    (hstop : ∀ e, t.stop = some e → e ≤ q)
    (hbracket : t.stop = none → t.type = .array ∨ t.type = .object) :
    Nested q ⟨ts ++ [t], sup'⟩ := by
  have hparents : parents (ts ++ [t]) = parents ts ++ [sup] := by
    rw [parents, List.map_append, List.map_singleton, hparent]
    rfl
  have hlen : (parents ts).length = ts.length := List.length_map _
  have hpush := h.linked.push
  rw [← hparents] at hpush
  have hnew : (parents (ts ++ [t]))[ts.length]? = some sup := by
    rw [hparents, ← hlen]
    exact List.getElem?_concat_length
  -- what was open is above the new token, which has its parent there
  have habove : ∀ k, IsOpen ts k → ∃ i, sup = some i ∧ Above (parents (ts ++ [t])) i k := by
    intro k hk
    obtain ⟨i, hi, hik⟩ := h.sup k hk
    rw [hparents]
    exact ⟨i, hi, hik.append _⟩
  have hlast : ∀ k, IsOpen ts k → Above (parents (ts ++ [t])) ts.length k := by
    intro k hk
    obtain ⟨i, hi, hik⟩ := habove k hk
    rw [hi] at hnew
    exact .step hnew hik
  have hmem : ∀ u ∈ ts ++ [t], u ∈ ts ∨ u = t := by
    intro u hu
    rcases List.mem_append.mp hu with hu | hu
    · exact .inl hu
    · exact .inr (List.mem_singleton.mp hu)
  constructor
  · rcases hsup with ⟨_, rfl⟩ | ⟨_, rfl⟩
    · have hl := hpush.last
      rw [parents, List.length_map, List.length_append, List.length_singleton,
        if_neg (Nat.succ_ne_zero _), Nat.add_sub_cancel] at hl
      exact hl
    · exact hpush
  · intro k hk
    simp only [List.length_append, List.length_singleton, Nat.add_sub_cancel]
    rcases hk.append with hk | ⟨rfl, _⟩
    · exact hlast k hk
    · exact .refl _
  · intro k hk
    rcases hsup with ⟨_, rfl⟩ | ⟨hclosed, rfl⟩
    · refine ⟨ts.length, rfl, ?_⟩
      rcases hk.append with hk | ⟨rfl, _⟩
      · exact hlast k hk
      · exact .refl _
    · rcases hk.append with hk | ⟨_, hopen⟩
      · exact habove k hk
      · exact absurd hopen hclosed
  · intro u hu
    rcases hmem u hu with hu | rfl
    · exact h.bracket u hu
    · exact hbracket
  · intro u hu
    rcases hmem u hu with hu | rfl
    · obtain ⟨h₁, h₂⟩ := h.placed u hu
      exact ⟨by omega, fun e he => (h₂ e he).trans (hstart.trans hq)⟩
    · exact ⟨hq, hstop⟩
  · intro v u hv hu
    rcases Nat.eq_zero_or_pos ts.length with hzero | hpos
    · obtain rfl : ts = [] := List.eq_nil_of_length_eq_zero hzero
      rw [List.nil_append] at hv hu
      injection hv with hv
      rw [List.mem_singleton.mp hu, hv]
    · have hv₀ : ts[0]? = some v := (List.getElem?_append_left hpos).symm.trans hv
      rcases hmem u hu with hu | rfl
      · exact h.first v u hv₀ hu
      · exact (h.placed v (List.mem_of_getElem? hv₀)).1.trans hstart

theorem Nested.mono {q : Nat} {p : Parser} (h : Nested pos p) (hq : pos ≤ q) : Nested q p :=
  { h with placed := fun t ht => ⟨(h.placed t ht).1.trans hq,
      fun e he => ((h.placed t ht).2 e he).trans hq⟩ }

/-- The tokens once token `i` is closed. -/
theorem shut_get {i k e : Nat} {t : Tok}
    (h : (ts.modify i fun t => { t with stop := some e })[k]? = some t) :
    ∃ u, ts[k]? = some u ∧ t.type = u.type ∧ t.start = u.start ∧
      (k = i ∧ t.stop = some e ∨ k ≠ i ∧ t.stop = u.stop) := by
  rw [List.getElem?_modify] at h
  cases hu : ts[k]? with
  | none =>
      rw [hu] at h
      cases h
  | some u =>
      rw [hu] at h
      have ht : (if i = k then { u with stop := some e } else u) = t := Option.some.inj h
      refine ⟨u, rfl, ?_⟩
      split at ht
      · next hik =>
          subst ht
          exact ⟨rfl, rfl, .inl ⟨hik.symm, rfl⟩⟩
      · next hik =>
          subst ht
          exact ⟨rfl, rfl, .inr ⟨fun h => hik h.symm, rfl⟩⟩

theorem IsOpen.shut {i k e : Nat} (h : IsOpen (ts.modify i fun t => { t with stop := some e }) k) :
    IsOpen ts k ∧ k ≠ i := by
  obtain ⟨t, ht, hstop⟩ := h
  obtain ⟨u, hu, _, _, ⟨_, hclosed⟩ | ⟨hne, hopen⟩⟩ := shut_get ht
  · cases hclosed.symm.trans hstop
  · exact ⟨⟨u, hu, hopen ▸ hstop⟩, hne⟩

/-- A bracket closes: what stays open is above the token that it closed. -/
theorem Nested.shut {type : JType} {i : Nat} {t : Tok} (h : Nested pos ⟨ts, sup⟩)
    (hclosed : closed type ts sup ts.length (ts.length - 1) = .ok (some i))
    (ht : ts[i]? = some t) :
    Nested (pos + 1) ⟨ts.modify i fun t => { t with stop := some (pos + 1) }, t.parent⟩ := by
  have hparents : parents (ts.modify i fun t => { t with stop := some (pos + 1) }) = parents ts := by
    rw [parents_modify]
    exact fun _ => rfl
  have hmem : ∀ u ∈ ts.modify i fun t => { t with stop := some (pos + 1) }, ∃ v ∈ ts,
      u.type = v.type ∧ u.start = v.start ∧ (u.stop = some (pos + 1) ∨ u.stop = v.stop) := by
    intro u hu
    obtain ⟨k, hk⟩ := List.mem_iff_getElem?.mp hu
    obtain ⟨v, hv, htype, hstart, ⟨_, hstop⟩ | ⟨_, hstop⟩⟩ := shut_get hk
    · exact ⟨v, List.mem_of_getElem? hv, htype, hstart, .inl hstop⟩
    · exact ⟨v, List.mem_of_getElem? hv, htype, hstart, .inr hstop⟩
  constructor
  · rw [hparents]
    exact h.linked.above (parents_get ht)
  · intro k hk
    rw [hparents]
    simp only [List.length_modify]
    exact h.last k hk.shut.1
  · intro k hk
    obtain ⟨hopen, hne⟩ := hk.shut
    rw [hparents]
    exact closed_above ht hopen hne hclosed (h.last k hopen)
  · intro u hu hopen
    obtain ⟨v, hv, htype, _, hstop | hstop⟩ := hmem u hu
    · cases hstop.symm.trans hopen
    · rw [htype]
      exact h.bracket v hv (hstop ▸ hopen)
  · intro u hu
    obtain ⟨v, hv, _, hstart, hstop⟩ := hmem u hu
    obtain ⟨h₁, h₂⟩ := h.placed v hv
    refine ⟨by omega, fun e he => ?_⟩
    rcases hstop with hstop | hstop
    · cases hstop.symm.trans he
      exact Nat.le_refl _
    · exact (h₂ e (hstop ▸ he)).trans (Nat.le_succ pos)
  · intro v u hv hu
    obtain ⟨v', hv', _, hstart', _⟩ := shut_get hv
    obtain ⟨u', hu', _, hstart, _⟩ := hmem u hu
    rw [hstart, hstart']
    exact h.first v' u' hv' hu'

/-- What a step does to the token above only. -/
theorem Nested.sups {sup' : Option Nat} (h : Nested pos ⟨ts, sup⟩)
    (hlinked : Linked (parents ts) sup')
    (hsup : ∀ k, IsOpen ts k → ∃ i, sup' = some i ∧ Above (parents ts) i k) :
    Nested pos ⟨ts, sup'⟩ :=
  ⟨hlinked, h.last, hsup, h.bracket, h.placed, h.first⟩

end

theorem nested_preserved (cap : Nat) : Preserved cap Nested where
  mono hq h := h.mono hq
  opens htype h h' := by
    obtain ⟨_, rfl⟩ := openBracket_ok h'
    refine (h.addSize _).push rfl (.inl ⟨rfl, ?_⟩) (Nat.le_refl _) (Nat.le_succ _)
      (fun e he => by cases he) fun _ => htype.symm
    rw [addSize_length]
  closes _ h h' := by
    rcases closeBracket_ok h' with rfl | ⟨i, t, hclosed, ht, _, _, rfl⟩
    · exact h.mono (Nat.le_succ _)
    · exact h.shut hclosed ht
  adds hstart hstop h h' := by
    rw [addToken_ok h']
    refine (h.push (q := _) rfl (.inr ⟨Option.some_ne_none _, rfl⟩) hstart hstop
      (fun e he => ?_) fun hopen => by cases hopen).addSize _
    cases he
    exact Nat.le_refl _
  colon h := by
    have hlinked := h.linked.last
    rw [parents, List.length_map] at hlinked
    refine h.sups hlinked fun k hk => ?_
    obtain ⟨t, ht, _⟩ := id hk
    have hlt := (List.getElem?_eq_some_iff.mp ht).1
    exact ⟨_, if_neg (by omega), h.last k hk⟩
  comma h ht htype := by
    obtain ⟨i, hi, hget⟩ := Option.bind_eq_some_iff.mp ht
    refine h.sups (h.linked.above (parents_get hget)) fun k hk => ?_
    obtain ⟨i', hi', habove⟩ := h.sup k hk
    cases hi.symm.trans hi'
    refine habove.parent hget ?_
    -- the token above is no bracket, so it is closed
    rintro rfl
    obtain ⟨u, hu, hopen⟩ := hk
    cases hget.symm.trans hu
    rcases h.bracket _ (List.mem_of_getElem? hget) hopen with htype' | htype'
    · exact htype.1 htype'
    · exact htype.2 htype'

/-! ## The brace that closes the root -/

/-- The root is not there yet, or an open object. -/
def Unclosed (p : Parser) : Prop :=
  ∀ t, p.toks[0]? = some t → t.type = .object ∧ t.stop = none

/-- The root has been closed at `e`: everything is, and lies in front of it. -/
structure RootClosed (e : Nat) (p : Parser) : Prop where
  root : ∃ t, p.toks[0]? = some t ∧ t.stop = some e
  closed : ∀ t ∈ p.toks, ∃ e', t.stop = some e' ∧ e' ≤ e
  starts : ∀ t ∈ p.toks, t.start < e
  first : ∀ t u, p.toks[0]? = some t → u ∈ p.toks → t.start ≤ u.start
  sup : p.toksuper = none

theorem Nested.rootClosed {pos : Nat} {ts : List Tok} {sup : Option Nat} {t : Tok}
    (h : Nested pos ⟨ts, sup⟩)
    (hclosed : closed t.type ts sup ts.length (ts.length - 1) = .ok (some 0))
    (ht : ts[0]? = some t) :
    RootClosed (pos + 1) ⟨ts.modify 0 fun t => { t with stop := some (pos + 1) }, t.parent⟩ := by
  have hparent : t.parent = none := by
    cases hp : t.parent with
    | none => rfl
    | some i =>
        have hget := parents_get ht
        rw [hp] at hget
        exact absurd (h.linked.parent 0 i hget).1 (Nat.not_lt_zero i)
  have hshut := h.shut hclosed ht
  constructor
  · refine ⟨{ t with stop := some (pos + 1) }, ?_, rfl⟩
    simp only [List.getElem?_modify, ht]
    rfl
  · intro u hu
    cases hstop : u.stop with
    | none =>
        obtain ⟨k, hk⟩ := List.mem_iff_getElem?.mp hu
        obtain ⟨hopen, hne⟩ := IsOpen.shut ⟨u, hk, hstop⟩
        obtain ⟨i, hi, _⟩ := closed_above ht hopen hne hclosed (h.last k hopen)
        cases hparent.symm.trans hi
    | some e' => exact ⟨e', rfl, (hshut.placed u hu).2 e' hstop⟩
  · intro u hu
    obtain ⟨k, hk⟩ := List.mem_iff_getElem?.mp hu
    obtain ⟨v, hv, _, hstart, _⟩ := shut_get hk
    have hle := (h.placed v (List.mem_of_getElem? hv)).1
    omega
  · exact hshut.first
  · exact hparent

/-- One turn leaves the root pending or closes it. -/
theorem turn_root {cap pos n : Nat} {c : UInt8} {p p' : Parser} (hn : Nested pos p)
    (hp : Unclosed p) (hturn : Turn cap pos c p p' n)
    (hobj : ∀ t, p'.toks[0]? = some t → t.type = .object) :
    Unclosed p' ∨ n = 0 ∧ RootClosed (pos + 1) p' := by
  cases hturn with
  | opens _ _ hstep =>
      obtain ⟨_, rfl⟩ := openBracket_ok hstep
      refine .inl fun t ht => ⟨hobj t ht, ?_⟩
      rw [List.getElem?_append] at ht
      split at ht
      · obtain ⟨u, hu, heq⟩ := addSize_get ht
        rw [heq]
        exact (hp u hu).2
      · have hmem := List.mem_of_getElem? ht
        rw [List.mem_singleton.mp hmem]
  | closes _ _ hstep =>
      rcases closeBracket_ok hstep with rfl | ⟨i, t, hclosed, ht, _, htype, rfl⟩
      · exact .inl hp
      · cases i with
        | zero =>
            subst htype
            exact .inr ⟨rfl, hn.rootClosed hclosed ht⟩
        | succ i =>
            refine .inl fun u hu => ⟨hobj u hu, ?_⟩
            obtain ⟨v, hv, _, _, ⟨hzero, _⟩ | ⟨_, hstop⟩⟩ := shut_get hu
            · cases hzero
            · rw [hstop]
              exact (hp v hv).2
  | adds _ htype _ _ _ hstep =>
      have hok := addToken_ok hstep
      subst hok
      refine .inl fun t ht => ⟨hobj t ht, ?_⟩
      have htobj := hobj t ht
      obtain ⟨u, hu, heq⟩ := addSize_get ht
      rw [heq] at htobj ⊢
      rw [List.getElem?_append] at hu
      split at hu
      · exact (hp u hu).2
      · -- a string or a primitive is no root
        have hmem := List.mem_of_getElem? hu
        rw [List.mem_singleton.mp hmem] at htobj
        rcases htype with rfl | rfl <;> cases htobj
  | same _ => exact .inl hp
  | colon _ => exact .inl hp
  | comma _ _ _ => exact .inl hp

theorem loop_ok {cap pos : Nat} {c : UInt8} {rest : Bytes} {p q : Parser}
    (h : loop cap 0 pos p (c :: rest) = .ok q) : c = 0 ∧ q = p ∨
      c ≠ 0 ∧ ∃ p' n, jsmnChar cap pos c rest p = .ok (p', n) ∧
        loop cap n (pos + 1) p' rest = .ok q := by
  rw [loop.eq_def] at h
  simp only at h
  split at h
  · next hc =>
      injection h with h
      exact .inl ⟨hc, h.symm⟩
  · next hc =>
      split at h
      · cases h
      · next p' n hstep => exact .inr ⟨hc, p', n, hstep, h⟩

/-- The run up to the brace that closes the root, and the rest of it. -/
theorem loop_root {cap : Nat} {q : Parser}
    (hroot : ∃ t e, q.toks[0]? = some t ∧ t.type = .object ∧ t.stop = some e) :
    ∀ {s : Bytes} {skip pos : Nat} {p : Parser}, Nested (pos + skip) p → Unclosed p →
      loop cap skip pos p s = .ok q → ∃ front back p₁, s = front ++ back ∧
        RootClosed (pos + front.length) p₁ ∧
        loop cap 0 (pos + front.length) p₁ back = .ok q := by
  obtain ⟨t, e, ht, htype, hstop⟩ := hroot
  have hdone : ∀ {p : Parser}, Unclosed p → q ≠ p := by
    rintro p hp rfl
    cases (hp t ht).2.symm.trans hstop
  intro s
  induction s with
  | nil =>
      intro skip pos p _ hp h
      cases skip <;> · injection h with h; exact absurd h.symm (hdone hp)
  | cons c s ih =>
      intro skip pos p hn hp h
      cases skip with
      | succ skip =>
          rw [← Nat.add_assoc, Nat.add_right_comm] at hn
          obtain ⟨front, back, p₁, rfl, hclosed, hloop⟩ := ih hn hp h
          rw [Nat.add_assoc, Nat.add_comm 1] at hclosed hloop
          exact ⟨c :: front, back, p₁, rfl, hclosed, hloop⟩
      | zero =>
          rcases loop_ok h with ⟨_, hq⟩ | ⟨_, p', n, hstep, hloop⟩
          · exact absurd hq (hdone hp)
          · have hturn := jsmnChar_turn hstep
            have hobj : ∀ u, p'.toks[0]? = some u → u.type = .object := by
              intro u hu
              obtain ⟨v, hv, hlater⟩ := loop_extends hloop 0 u hu
              cases ht.symm.trans hv
              exact hlater.type.symm.trans htype
            rcases turn_root hn hp hturn hobj with hp' | ⟨rfl, hclosed⟩
            · obtain ⟨front, back, p₁, rfl, hclosed, hloop'⟩ :=
                ih ((nested_preserved cap).turn hn hturn) hp' hloop
              rw [Nat.add_assoc, Nat.add_comm 1] at hclosed hloop'
              exact ⟨c :: front, back, p₁, rfl, hclosed, hloop'⟩
            · exact ⟨[c], s, p', rfl, hclosed, hloop⟩

/-! ## Behind it -/

/-- The text as far as it is read. -/
def untilNul (s : Bytes) : Bytes := s.takeWhile (· ≠ 0)

theorem untilNul_cons {c : UInt8} (hc : c ≠ 0) (s : Bytes) :
    untilNul (c :: s) = c :: untilNul s :=
  List.takeWhile_cons_of_pos (decide_eq_true hc)

/-- A token that a turn adds, further on. -/
theorem added_later {ts us : List Tok} {t : Tok} {i : Option Nat}
    (hext : Extends (addSize (ts ++ [t]) i) us) :
    ∃ u, us[ts.length]? = some u ∧ u.start = t.start ∧ u.parent = t.parent := by
  have h := (Extends.addSize (ts ++ [t]) i).trans hext
  obtain ⟨u, hu, hlater⟩ := h ts.length t List.getElem?_concat_length
  exact ⟨u, hu, hlater.start, hlater.parent⟩

/-- With nothing open, the run goes on to the first token that starts; if no colon
comes before it, its parent is the token above. -/
theorem loop_tail {cap : Nat} {q : Parser} : ∀ {s : Bytes} {pos : Nat} {p : Parser},
    (∀ t ∈ p.toks, t.stop ≠ none) → loop cap 0 pos p s = .ok q →
      (q.toks = p.toks ∧ ∀ c ∈ untilNul s, ¬ starts c) ∨
      ∃ a x b t, untilNul s = a ++ x :: b ∧ starts x ∧ q.toks[p.toks.length]? = some t ∧
        pos ≤ t.start ∧ (58 ∉ a → p.toksuper = none → t.parent = none) := by
  intro s
  induction s with
  | nil =>
      intro pos p _ h
      injection h with h
      subst h
      exact .inl ⟨rfl, fun c hc => nomatch hc⟩
  | cons c s ih =>
      intro pos p hclosed h
      rcases loop_ok h with ⟨rfl, rfl⟩ | ⟨hc, p', n, hstep, hloop⟩
      · exact .inl ⟨rfl, fun c hc => by cases hc⟩
      · rw [untilNul_cons hc]
        have hext := loop_extends hloop
        -- a turn that adds no token: what comes behind it, with its character in front
        have hskip : ∀ {p' : Parser}, p'.toks = p.toks → ¬ starts c →
            loop cap 0 (pos + 1) p' s = .ok q →
            (58 ≠ c → p.toksuper = none → p'.toksuper = none) →
            (q.toks = p.toks ∧ ∀ d ∈ c :: untilNul s, ¬ starts d) ∨
            ∃ a x b t, c :: untilNul s = a ++ x :: b ∧ starts x ∧
              q.toks[p.toks.length]? = some t ∧ pos ≤ t.start ∧
              (58 ∉ a → p.toksuper = none → t.parent = none) := by
          intro p' htoks hns hloop hsup
          rcases ih (by rw [htoks]; exact hclosed) hloop with
            ⟨hq, hall⟩ | ⟨a, x, b, t, hs, hx, ht, hstart, hparent⟩
          · refine .inl ⟨hq.trans htoks, fun d hd => ?_⟩
            rcases List.mem_cons.mp hd with rfl | hd
            · exact hns
            · exact hall d hd
          · refine .inr ⟨c :: a, x, b, t, by rw [hs, List.cons_append], hx, htoks ▸ ht, by omega,
              fun hcolon hnone => ?_⟩
            exact hparent (fun h => hcolon (List.mem_cons_of_mem c h))
              (hsup (fun h => hcolon (h ▸ List.mem_cons_self)) hnone)
        cases jsmnChar_turn hstep with
        | opens hs _ hopen =>
            obtain ⟨_, rfl⟩ := openBracket_ok hopen
            obtain ⟨t, ht, hlater⟩ := hext _ _ List.getElem?_concat_length
            rw [addSize_length] at ht
            exact .inr ⟨[], c, untilNul s, t, rfl, hs, ht, Nat.le_of_eq hlater.start.symm,
              fun _ hnone => hlater.parent.trans hnone⟩
        | adds hs _ hstart _ _ hadd =>
            rw [addToken_ok hadd] at hext
            obtain ⟨t, ht, hstart', hparent⟩ := added_later hext
            exact .inr ⟨[], c, untilNul s, t, rfl, hs, ht, hstart' ▸ hstart,
              fun _ hnone => hparent.trans hnone⟩
        | closes hns _ hclose =>
            rcases closeBracket_ok hclose with rfl | ⟨i, t, _, ht, hopen, _⟩
            · exact hskip rfl hns hloop fun _ h => h
            · exact absurd hopen (hclosed t (List.mem_of_getElem? ht))
        | same hns => exact hskip rfl hns hloop fun _ h => h
        | colon hcolon =>
            subst hcolon
            refine hskip ?_ (by decide) hloop fun h => absurd rfl h
            rfl
        | comma hcomma ht _ =>
            subst hcomma
            refine hskip ?_ (by decide) hloop fun _ hnone => ?_
            · rfl
            · rw [hnone] at ht
              cases ht

/-- Token `u` lies inside of token `t`. -/
def Inside (t u : Tok) : Prop :=
  t.start ≤ u.start ∧ ∃ e e', t.stop = some e ∧ u.stop = some e' ∧ u.start < e ∧ e' ≤ e

/-- All tokens of a text that is accepted lie inside of the root exactly when no
token starts behind a colon that is behind the root. -/
theorem nothing_trails_iff {src : Bytes} {j : Doc} (h : jsonParse src = some j) :
    ∃ t e, j.tok[0]? = some t ∧ t.type = .object ∧ t.stop = some e ∧
      ((∀ u ∈ j.tok, Inside t u) ↔
        ∀ a b, untilNul (src.drop e) = a ++ 58 :: b → ∀ c ∈ b, ¬ starts c) := by
  obtain ⟨_, q, t, rest, hloop, htok, htoks, htype, hstop, hparent⟩ := jsonParse_ok h
  have ht : q.toks[0]? = some t := by rw [htoks]; rfl
  obtain ⟨e, he⟩ := Option.ne_none_iff_exists'.mp (hstop t (List.mem_of_getElem? ht))
  have hpending : Unclosed {} := fun t ht => by cases ht
  obtain ⟨front, back, p, hsrc, hclosed, hback⟩ :=
    loop_root ⟨t, e, ht, htype, he⟩ Nested.empty hpending hloop
  rw [Nat.zero_add] at hclosed hback
  -- the root is closed for good at the end of `front`
  obtain ⟨t₁, ht₁, he₁⟩ := hclosed.root
  have hroot : e = front.length ∧ t.start = t₁.start := by
    obtain ⟨t', ht', hlater⟩ := loop_extends hback 0 t₁ ht₁
    cases ht.symm.trans ht'
    have hstop' := hlater.stop (by rw [he₁]; exact Option.some_ne_none _)
    rw [he, he₁] at hstop'
    exact ⟨Option.some.inj hstop', hlater.start⟩
  obtain ⟨rfl, hstart⟩ := hroot
  have hdrop : src.drop front.length = back := by rw [hsrc, List.drop_left]
  have hlen : 0 < p.toks.length := (List.getElem?_eq_some_iff.mp ht₁).1
  have htail := loop_tail (fun u hu => by
    obtain ⟨e', he', _⟩ := hclosed.closed u hu
    rw [he']
    exact Option.some_ne_none e') hback
  rw [htok]
  refine ⟨t, front.length, ht, htype, he, ?_⟩
  rw [hdrop]
  constructor
  · intro hinside a b hab c hc hs
    rcases htail with ⟨_, hall⟩ | ⟨_, _, _, u, _, _, hu, hustart, _⟩
    · exact hall c (by rw [hab]; exact List.mem_append_right a (List.mem_cons_of_mem _ hc)) hs
    · obtain ⟨_, e, _, hte, _, hlt, _⟩ := hinside u (List.mem_of_getElem? hu)
      cases he.symm.trans hte
      omega
  · intro hcond
    rcases htail with ⟨hq, _⟩ | ⟨a, x, b, u, hab, hx, hu, _, hnone⟩
    · intro u hu
      rw [hq] at hu
      obtain ⟨e', he', hle⟩ := hclosed.closed u hu
      exact ⟨hstart ▸ hclosed.first t₁ u ht₁ hu, _, e', he, he', hclosed.starts u hu, hle⟩
    · exfalso
      by_cases hcolon : 58 ∈ a
      · obtain ⟨a₁, a₂, rfl⟩ := List.append_of_mem hcolon
        refine hcond a₁ (a₂ ++ x :: b) ?_ x (List.mem_append_right _ List.mem_cons_self) hx
        rw [hab, List.append_assoc, List.cons_append]
      · refine hparent u ?_ (hnone hcolon hclosed.sup)
        rw [htoks] at hu
        cases hlen' : p.toks.length with
        | zero => omega
        | succ n =>
            rw [hlen'] at hu
            exact List.mem_of_getElem? hu

/-- A colon with nothing but a comma behind it. -/
theorem nothing_trails_iff_comma : ∃ j t, jsonParse (lit "\x7b\"a\":1\x7d:,") = some j ∧
    j.tok[0]? = some t ∧ ∀ u ∈ j.tok, Inside t u := by
  have hparse : (jsonParse (lit "\x7b\"a\":1\x7d:,")).map (·.tok) =
      some [⟨.object, 0, some 7, 1, none⟩, ⟨.string, 2, some 3, 1, some 0⟩,
        ⟨.primitive, 5, some 6, 0, some 1⟩] := by
    decide +kernel
  obtain ⟨j, hj, htok⟩ := Option.map_eq_some_iff.mp hparse
  obtain ⟨t, e, ht, _, he, hiff⟩ := nothing_trails_iff hj
  refine ⟨j, t, hj, ht, hiff.mpr ?_⟩
  rw [htok] at ht
  injection ht with ht
  subst ht
  injection he with he
  subst he
  have htail : untilNul ((lit "\x7b\"a\":1\x7d:,").drop 7) = [58, 44] := by decide
  rw [htail]
  intro a b hab c hc
  cases a with
  | nil =>
      injection hab with _ hb
      rw [← hb] at hc
      rw [List.mem_singleton.mp hc]
      decide
  | cons x a =>
      have hlen := congrArg List.length hab
      simp only [List.length_cons, List.length_append, List.length_nil] at hlen
      have hb : b = [] := List.eq_nil_of_length_eq_zero (by omega)
      rw [hb] at hc
      cases hc

/-- A string behind the colon behind the root. -/
theorem trailing_accepted : ∃ j t u, jsonParse (lit "\x7b\x7d:\"x\"") = some j ∧
    j.tok[0]? = some t ∧ u ∈ j.tok ∧ ¬ Inside t u := by
  have hparse : (jsonParse (lit "\x7b\x7d:\"x\"")).map (·.tok) =
      some [⟨.object, 0, some 2, 1, none⟩, ⟨.string, 4, some 5, 0, some 0⟩] := by
    decide +kernel
  obtain ⟨j, hj, htok⟩ := Option.map_eq_some_iff.mp hparse
  refine ⟨j, ⟨.object, 0, some 2, 1, none⟩, ⟨.string, 4, some 5, 0, some 0⟩, hj, ?_, ?_, ?_⟩
  · rw [htok]
    rfl
  · rw [htok]
    simp
  · rintro ⟨_, e, e', he, _, hlt, _⟩
    injection he with he
    subst he
    exact absurd hlt (by decide)

end GeistServe.Proofs
