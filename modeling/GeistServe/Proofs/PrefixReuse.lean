import GeistServe.Proofs.SessionMirror

/-!
# What a prefill reuses

A `prefill` names the whole context it wants. `Reusing` says what the session
becomes for it, by the four cases of the source: the request extends the history,
it is the history, it leaves the history behind the pin, or it is refused. The
boundary between what is kept and what the engine is given is one number,
`reusable`, and the engine's cache is the request's first `reusable` tokens when
the rest is handed over.
-/

namespace GeistServe.Proofs

open GeistServe.Lib GeistServe.Geistd

variable {E : Engine} {P : Platform}

/-- The five checks, and the one for the pinned prefix. -/
def Refusable (vocab : Nat) (x : Sess E) (bytes : List UInt8) : Prop :=
  bytes.length % 4 ≠ 0 ∨ int32s bytes = [] ∨ (int32s bytes).length > 4095 ∨
    (∃ t ∈ int32s bytes, t < 0 ∨ (vocab : Int) ≤ t) ∨
    ¬ x.hist.take x.pinned <+: int32s bytes

/-- How much of the history a request leaves in place. -/
def reusable (x : Sess E) (ids : List Int) : Nat :=
  if x.hist ≠ [] ∧ x.hist <+: ids then x.hist.length else x.pinned

/-- The engine session that the rest of a request is given to: the one there is,
or the one a reset left. -/
def resumed (x : Sess E) (ids : List Int) : E.Sess :=
  if x.hist ≠ [] ∧ x.hist <+: ids then x.s else (E.reset x.s).2

/-- The engine took `ts` in, in one call or, when there is nothing, in none. -/
def Given (s s' : E.Sess) (ts : List Int) : Prop :=
  if ts = [] then s' = s else E.prefillTokens s ts = (true, s')

/-- What a prefill does to a session, and what it answers. -/
structure Reusing (vocab : Nat) (x : Sess E) (bytes : List UInt8) (x' : Sess E) (r : Reply) :
    Prop where
  answers : (∃ p u n, r = .prefilled p u n) ∨ ∃ msg, r = .error msg
  done : ∀ p u n, r = .prefilled p u n →
    x'.hist = int32s bytes ∧ n = (int32s bytes).length ∧ p + u = n ∧
      u = reusable x (int32s bytes) ∧ x'.pinned = x.pinned ∧
      E.kv (resumed x (int32s bytes)) = (int32s bytes).take u ∧
      Given (resumed x (int32s bytes)) x'.s ((int32s bytes).drop u)
  refused : Refusable vocab x bytes →
    (∃ msg, r = .error msg) ∧ x'.hist = x.hist ∧ x'.pinned = x.pinned ∧ x'.s = x.s
  failed : ¬ Refusable vocab x bytes → (∃ msg, r = .error msg) →
    (∃ s, E.prefillTokens (resumed x (int32s bytes))
      ((int32s bytes).drop (reusable x (int32s bytes))) = (false, s)) ∧
      x'.hist = x.hist.take x.pinned ∧ x'.pinned = x.pinned ∧
      E.kv x'.s = x.hist.take x.pinned ∧ E.pin x'.s = x.hist.take x.pinned

/-- A refused request. -/
theorem Reusing.error {vocab : Nat} {x : Sess E} {bytes : List UInt8} {msg : CStr}
    (h : Refusable vocab x bytes) : Reusing vocab x bytes x (.error msg) where
  answers := .inr ⟨msg, rfl⟩
  done := by
    intro p u n hr
    cases hr
  refused := fun _ => ⟨⟨msg, rfl⟩, rfl, rfl, rfl⟩
  failed := fun hok => absurd h hok

/-! ## Frames -/

/-- The time of use is not part of what a prefill is about. -/
theorem Reusing.touched {vocab now : Nat} {x x' : Sess E} {bytes : List UInt8} {r : Reply}
    (h : Reusing vocab { x with used := now } bytes x' r) : Reusing vocab x bytes x' r :=
  ⟨h.answers, h.done, h.refused, h.failed⟩

theorem handle_prefill {d : Daemon P} {env : Env} {f : Frame} {c : Conn} {i : Nat} {x : Sess P.E}
    (hop : opOf f = some (lit "prefill")) (hgate : (d.needHello && !c.authed) = false)
    (hfind : sessFind d.sess (sessionOf f) = some i) (hx : slot d.sess i = some x) :
    slot (handle d env f c).1.sess i =
        some (opPrefill d.vocab { x with used := env.now } f.body).1 ∧
      (handle d env f c).2 = reply { c with ran := c.ran ++ [lit "prefill"] }
        (opPrefill d.vocab { x with used := env.now } f.body).2 := by
  obtain ⟨hdr, body⟩ := f
  cases hdr with
  | none => cases hop
  | some j =>
      have hop : jsonStrdup (jsonGet j "op") = some (lit "prefill") := hop
      have hfind : sessFind d.sess (jsonStrdup (jsonGet j "session")) = some i := hfind
      have hslot : slot (d.sess.modify i (Option.map fun x => { x with used := env.now })) i =
          some { x with used := env.now } := by
        rw [slot_modify, if_pos rfl, hx]
        rfl
      unfold handle
      simp only [hop]
      rw [if_neg (by decide), if_neg (by rw [hgate]; exact Bool.false_ne_true)]
      unfold dispatch Daemon.findSess
      simp only [hfind]
      rw [if_neg (by decide), if_neg (by decide), if_neg (by decide), if_neg (by decide),
        if_neg (by decide), if_neg (by decide), if_pos trivial, Daemon.onSess]
      simp only [Option.bind_some, hslot, Option.map_some]
      refine ⟨?_, rfl⟩
      show slot (List.set _ i _) i = _
      rw [slot_set_live hslot, if_pos rfl]

variable [LawfulEngine E] [LawfulEngine P.E]

open LawfulEngine

/-! ## The rest of a request -/

/-- The request's rest on a session that holds just its first `u` tokens. -/
theorem prefillTail_reusing {vocab : Nat} {x y : Sess E} {bytes : List UInt8} {u : Nat}
    (hok : ¬ Refusable vocab x bytes) (hu : u = reusable x (int32s bytes))
    (hs : y.s = resumed x (int32s bytes)) (hkv : E.kv y.s = y.hist)
    (hpin : E.pin y.s = x.hist.take x.pinned) (hpinned : y.pinned = x.pinned)
    (hhist : y.hist = (int32s bytes).take u) (hkept : y.hist.take x.pinned = x.hist.take x.pinned)
    (hle : u ≤ (int32s bytes).length) :
    Reusing vocab x bytes (prefillTail y (int32s bytes) u).1 (prefillTail y (int32s bytes) u).2 := by
  have hcap : (int32s bytes).length ≤ 4095 := by
    by_contra hlong
    exact hok (.inr (.inr (.inl (by omega))))
  generalize hids : int32s bytes = ids at *
  have hlen : y.hist.length = u := by rw [hhist, List.length_take, Nat.min_eq_left hle]
  unfold prefillTail
  simp only
  by_cases htail : ids.drop u = []
  · have hend : ids.length = u := Nat.le_antisymm (List.drop_eq_nil_iff.mp htail) hle
    rw [if_pos htail]
    refine ⟨.inl ⟨_, _, _, rfl⟩, ?_, fun h => absurd h hok, ?_⟩
    · intro p u' n h
      cases h
      rw [hids]
      refine ⟨?_, hlen.trans hend.symm, by omega, hu, hpinned, ?_, ?_⟩
      · rw [hhist, List.take_of_length_le (Nat.le_of_eq hend)]
      · rw [← hs, hkv, hhist]
      · rw [Given, if_pos htail, hs]
    · rintro _ ⟨msg, h⟩
      cases h
  · rw [if_neg htail]
    cases hcall : E.prefillTokens y.s (ids.drop u) with
    | mk ok s =>
        cases ok with
        | false =>
            obtain ⟨_, hkv', hpin'⟩ := reset_pin (E := E) s
            have hspin := prefill_fail y.s _ s hcall
            refine ⟨.inr ⟨_, rfl⟩, ?_, fun h => absurd h hok, ?_⟩
            · intro p u' n h
              cases h
            · intro _ _
              rw [hids, ← hs, ← hu, hcall]
              refine ⟨⟨s, rfl⟩, ?_, hpinned, ?_, ?_⟩
              · show y.hist.take y.pinned = _
                rw [hpinned, hkept]
              · exact (hkv'.trans hspin).trans hpin
              · exact (hpin'.trans hspin).trans hpin
        | true =>
            have hpush : histPush { y with s := s } (ids.drop u) = { y with s := s, hist := ids } := by
              rw [histPush, if_neg (by
                simp only [List.length_drop, hlen, CTX_CAP]
                omega)]
              show ({ y with s := s, hist := y.hist ++ ids.drop u } : Sess E) = _
              rw [hhist, List.take_append_drop]
            simp only
            rw [hpush]
            refine ⟨.inl ⟨_, _, _, rfl⟩, ?_, fun h => absurd h hok, ?_⟩
            · intro p u' n h
              cases h
              rw [hids]
              refine ⟨rfl, rfl, ?_, hu, hpinned, ?_, ?_⟩
              · rw [List.length_drop]
                exact Nat.sub_add_cancel hle
              · rw [← hs, hkv, hhist]
              · rw [Given, if_neg htail, ← hs, hcall]
            · rintro _ ⟨msg, h⟩
              cases h

/-! ## The op -/

theorem opPrefill_reusing {vocab : Nat} {x : Sess E} {body : Body} (h : SessOk x) :
    Reusing vocab x body.bytes (opPrefill vocab x body).1 (opPrefill vocab x body).2 := by
  unfold opPrefill
  by_cases hwhole : body.bytes.length % 4 ≠ 0
  · rw [if_pos hwhole]
    exact .error (.inl hwhole)
  · rw [if_neg hwhole]
    simp only
    by_cases hempty : (int32s body.bytes).length = 0
    · rw [if_pos hempty]
      exact .error (.inr (.inl (List.eq_nil_of_length_eq_zero hempty)))
    · rw [if_neg hempty]
      by_cases hlong : (int32s body.bytes).length > CTX_CAP - 1
      · rw [if_pos hlong]
        exact .error (.inr (.inr (.inl hlong)))
      · rw [if_neg hlong]
        by_cases hrange : (int32s body.bytes).any fun t => decide (t < 0) || decide ((vocab : Int) ≤ t)
        · rw [if_pos hrange]
          obtain ⟨t, ht, hbad⟩ := List.any_eq_true.mp hrange
          simp only [Bool.or_eq_true, decide_eq_true_eq] at hbad
          exact .error (.inr (.inr (.inr (.inl ⟨t, ht, hbad⟩))))
        · rw [if_neg hrange]
          generalize hids : int32s body.bytes = ids at *
          have hpre : x.hist <+: ids ↔ x.hist.length ≤ agree (fun a b => decide (a = b)) x.hist ids := by
            rw [← take_prefix_iff (Nat.le_refl _), List.take_length]
          have hcommon := agree_le_left (fun a b => decide (a = b)) x.hist ids
          have hcommon' := agree_le_right (fun a b => decide (a = b)) x.hist ids
          have hpinpre : _ <+: ids ↔ _ := take_prefix_iff h.le
          generalize agree (fun a b => decide (a = b)) x.hist ids = common at *
          -- Only the pinned prefix can still refuse the request.
          have hpasses : x.pinned ≤ common → ¬ Refusable vocab x body.bytes := by
            rintro hle (hr | hr | hr | ⟨t, ht, hr⟩ | hr)
            · exact hwhole hr
            · rw [hids] at hr
              exact hempty (by rw [hr]; rfl)
            · rw [hids] at hr
              exact hlong hr
            · rw [hids] at ht
              refine hrange (List.any_eq_true.mpr ⟨t, ht, ?_⟩)
              simpa using hr
            · rw [hids] at hr
              exact hr (hpinpre.mpr hle)
          have hlepin := h.le
          by_cases hext : common = x.hist.length ∧ x.hist.length > 0 ∧ ids.length > x.hist.length
          · -- The history is a proper prefix: the rest is appended.
            rw [if_pos hext]
            obtain ⟨hc, hpos, hlt⟩ := hext
            have hfull : x.hist ≠ [] ∧ x.hist <+: ids :=
              ⟨List.ne_nil_of_length_pos hpos, hpre.mpr (Nat.le_of_eq hc.symm)⟩
            rw [← hids]
            refine prefillTail_reusing (hpasses (by omega)) ?_ ?_ h.kv h.pin rfl ?_ rfl ?_
            · rw [hids, reusable, if_pos hfull]
            · rw [hids, resumed, if_pos hfull]
            · obtain ⟨zs, hzs⟩ := hfull.2
              rw [hids, ← hzs, List.take_left]
            · rw [hids]
              omega
          · rw [if_neg hext]
            by_cases hsame : common = ids.length ∧ x.hist.length = ids.length
            · -- Nothing is left to do.
              rw [if_pos hsame]
              obtain ⟨hc, hlen⟩ := hsame
              have hprefix : x.hist <+: ids := hpre.mpr (by omega)
              have heq : x.hist = ids := hprefix.eq_of_length hlen
              have hfull : x.hist ≠ [] ∧ x.hist <+: ids := by
                refine ⟨?_, hprefix⟩
                rw [heq]
                exact List.ne_nil_of_length_pos (Nat.pos_of_ne_zero hempty)
              have hok := hpasses (by omega)
              refine ⟨.inl ⟨_, _, _, rfl⟩, ?_, fun hr => absurd hr hok, ?_⟩
              · intro p u n hr
                cases hr
                rw [hids, reusable, resumed, if_pos hfull, if_pos hfull, List.take_length,
                  List.drop_length]
                exact ⟨heq, rfl, Nat.zero_add _, hlen.symm, rfl, h.kv.trans heq, by rw [Given, if_pos rfl]⟩
              · rintro _ ⟨msg, hr⟩
                cases hr
            · rw [if_neg hsame]
              by_cases hpin : x.pinned > 0 ∧ common < x.pinned
              · rw [if_pos hpin]
                refine .error (.inr (.inr (.inr (.inr ?_))))
                rw [hids, hpinpre]
                omega
              · -- Back to the pin, which the request starts with.
                rw [if_neg hpin]
                have hnot : ¬ (x.hist ≠ [] ∧ x.hist <+: ids) := by
                  rintro ⟨hne, hp⟩
                  have hpos := List.length_pos_iff.mpr hne
                  have hle := hpre.mp hp
                  omega
                obtain ⟨hreset, hkv, hpinned⟩ := reset_pin (E := E) x.s
                cases hcall : E.reset x.s with
                | mk ok s =>
                    rw [hcall] at hreset hkv hpinned
                    cases hreset
                    simp only
                    rw [← hids]
                    have hpinle : x.pinned ≤ common := by omega
                    refine prefillTail_reusing (hpasses hpinle) ?_ ?_ (hkv.trans h.pin)
                      (hpinned.trans h.pin) rfl ?_ ?_ ?_
                    · rw [hids, reusable, if_neg hnot]
                    · rw [hids, resumed, if_neg hnot, hcall]
                    · obtain ⟨zs, hzs⟩ := hpinpre.mpr hpinle
                      rw [hids, ← hzs, List.take_left' (by rw [List.length_take]; omega)]
                    · exact (List.take_take ..).trans (by rw [Nat.min_self])
                    · rw [hids]
                      omega

/-! ## Main result -/

/-- In every reachable state a prefill of a live session keeps the part of the
history that the request names, gives the engine just the rest, and refuses
without touching anything what it cannot serve. -/
theorem prefill_reuses_prefix {s : Server P}
    (h : (Server.machine Server.Started).Reach Machine.free s) {i : Nat} {x : Sess P.E}
    (hx : slot s.d.sess i = some x) (env : Env) (f : Frame) (c : Conn)
    (hop : opOf f = some (lit "prefill")) (hgate : (s.d.needHello && !c.authed) = false)
    (hfind : sessFind s.d.sess (sessionOf f) = some i) :
    ∃ x' r, slot (handle s.d env f c).1.sess i = some x' ∧
      (handle s.d env f c).2 = reply { c with ran := c.ran ++ [lit "prefill"] } r ∧
      Reusing s.d.vocab x f.body.bytes x' r := by
  have hs : Mirrored s := by
    refine reach_mirrored (fun t ht j y hy => ?_) h
    rw [ht.1 j] at hy
    cases hy
  obtain ⟨hslot, hreply⟩ := handle_prefill hop hgate hfind hx
  exact ⟨_, _, hslot, hreply, (opPrefill_reusing ((hs i x hx).touch env.now).ok).touched⟩

/-- A session with three tokens, pinned at two, is asked for the pin and another
token. -/
theorem prefill_reuses_prefix_pinned :
    ∃ (s : Server plain) (x x' : Sess plain.E) (r : Reply), x.hist = [1, 2, 2] ∧
      (handle s.d ⟨5, [], false⟩ (request "prefill" [("session", .str (lit "s"))]
        { bytes := [1, 0, 0, 0, 2, 0, 0, 0, 5, 0, 0, 0] }) {}).2 =
          reply { ran := [lit "prefill"] } r ∧
      slot (handle s.d ⟨5, [], false⟩ (request "prefill" [("session", .str (lit "s"))]
        { bytes := [1, 0, 0, 0, 2, 0, 0, 0, 5, 0, 0, 0] }) {}).1.sess 0 = some x' ∧
      Reusing 256 x [1, 0, 0, 0, 2, 0, 0, 0, 5, 0, 0, 0] x' r := by
  have hrun : ∃ s x, (Server.machine Server.Started).run
      (started (plainDaemon 1 0 none false)) pinnedRun = some s ∧
      slot s.d.sess 0 = some x ∧ x.hist = [1, 2, 2] ∧ s.d.vocab = 256 ∧
      s.d.needHello = false ∧ sessFind s.d.sess (some (lit "s")) = some 0 :=
    ⟨_, _, rfl, rfl, rfl, rfl, rfl, rfl⟩
  obtain ⟨s, x, hrun, hx, hhist, hvocab, hneed, hfind⟩ := hrun
  have hreach := Machine.run_reach (fun _ _ => trivial)
    (.init (M := Server.machine Server.Started) ?_) hrun
  · obtain ⟨x', r, hslot, hreply, hreuse⟩ := prefill_reuses_prefix hreach hx ⟨5, [], false⟩
      (request "prefill" [("session", .str (lit "s"))]
        { bytes := [1, 0, 0, 0, 2, 0, 0, 0, 5, 0, 0, 0] }) {} rfl (by rw [hneed]; rfl) hfind
    exact ⟨s, x, x', r, hhist, hreply, hslot, hvocab ▸ hreuse⟩
  · refine ⟨fun i => ?_, fun i => ?_, fun _ => rfl⟩
    · cases i <;> rfl
    · rfl

end GeistServe.Proofs
