import GeistServe.Geistd.Handle
import GeistServe.Geistd.Plain
import GeistServe.Lib.Window

/-!
# The token loop of generate

The loop has six ways out, and the order of its tests decides which one wins
when two are due on one token: the bound and the full context are looked at
before a token is decoded, a client that is gone before the stop that its token
would have been. `Loop` says this once, with one constructor for each way out,
and everything here is an induction over it.

Two books are kept of a run. The frames are what the client was sent; the
history is what was decoded. They differ by the one token whose frame the
client did not take.
-/

namespace GeistServe.Proofs

open GeistServe.Geistd GeistServe.Lib

variable {E : Engine}

/-- A token frame: the token, its stop flag and its piece. -/
structure Said where
  token : Int
  stop : Bool
  piece : Option CStr
  deriving DecidableEq

def Said.frame (f : Said) : Reply := .token f.token f.stop f.piece

/-- The ways out of the loop. -/
inductive GenEnd where
  | max | context | error | client | stop
  deriving DecidableEq

def GenEnd.reason : GenEnd → String
  | max => "max"
  | context => "context"
  | error => "error"
  | client => "client"
  | stop => "stop"

/-- The session after one decoded token. -/
def decoded (x : Sess E) (s : E.Sess) (t : Int) : Sess E :=
  { x with s := s, hist := x.hist ++ [t] }

/-- The decoded tail after one token. -/
def tailAfter (tail : CStr) (p : Option CStr) : CStr := (p.map (tailPush tail)).getD tail

/-- A run of the loop with at most `fuel` tokens: the frames the client took,
the way out, the session and the connection it leaves. -/
inductive Loop (st : Stops) :
    Nat → CStr → Sess E → Conn → List Said → GenEnd → Sess E → Conn → Prop where
  | max {tail x c} : Loop st 0 tail x c [] .max x c
  | context {fuel tail x c} (hfull : CTX_CAP - 1 ≤ x.hist.length) :
      Loop st (fuel + 1) tail x c [] .context x c
  | error {fuel tail x c s} (hroom : x.hist.length < CTX_CAP - 1)
      (hdecode : E.decodeStep x.s = (none, s)) :
      Loop st (fuel + 1) tail x c [] .error { x with s := s } c
  | client {fuel tail x c s t p stop c'} (hroom : x.hist.length < CTX_CAP - 1)
      (hdecode : E.decodeStep x.s = (some t, s)) (hp : E.tokenToStr s t = p)
      (hstop : stopsAt st t p (tailAfter tail p) = stop)
      (hsend : reply c (.token t stop p) = (c', false)) :
      Loop st (fuel + 1) tail x c [] .client (decoded x s t) c'
  | stop {fuel tail x c s t p c'} (hroom : x.hist.length < CTX_CAP - 1)
      (hdecode : E.decodeStep x.s = (some t, s)) (hp : E.tokenToStr s t = p)
      (hstop : stopsAt st t p (tailAfter tail p) = true)
      (hsend : reply c (.token t true p) = (c', true)) :
      Loop st (fuel + 1) tail x c [⟨t, true, p⟩] .stop (decoded x s t) c'
  | next {fuel tail x c s t p c' frames e x' c''} (hroom : x.hist.length < CTX_CAP - 1)
      (hdecode : E.decodeStep x.s = (some t, s)) (hp : E.tokenToStr s t = p)
      (hstop : stopsAt st t p (tailAfter tail p) = false)
      (hsend : reply c (.token t false p) = (c', true))
      (rest : Loop st fuel (tailAfter tail p) (decoded x s t) c' frames e x' c'') :
      Loop st (fuel + 1) tail x c (⟨t, false, p⟩ :: frames) e x' c''

/-- Every run of `genLoop` is one of these, and it counts the frames. -/
theorem genLoop_loop (st : Stops) : ∀ (fuel k : Nat) (tail : CStr) (x : Sess E) (c : Conn),
    ∃ frames e x' c', Loop st fuel tail x c frames e x' c' ∧
      genLoop st fuel k tail x c = (x', c', e.reason, k + frames.length) := by
  intro fuel
  induction fuel with
  | zero =>
      intro k tail x c
      exact ⟨[], .max, x, c, .max, rfl⟩
  | succ fuel ih =>
      intro k tail x c
      rw [genLoop]
      split
      · next hfull => exact ⟨[], .context, x, c, .context hfull, rfl⟩
      · next hfull =>
          have hroom : x.hist.length < CTX_CAP - 1 := Nat.not_le.mp hfull
          split
          · next s hs => exact ⟨[], .error, _, c, .error hroom hs, rfl⟩
          · next t s hs =>
              have hpush : histPush { x with s := s } [t] = decoded x s t := by
                rw [histPush, if_neg]
                · rfl
                · rw [List.length_singleton]
                  show ¬ x.hist.length + 1 > CTX_CAP
                  omega
              rw [hpush]
              simp only
              split
              · next c' hr =>
                  exact ⟨[], .client, _, c', .client hroom hs rfl rfl hr, rfl⟩
              · next c' hr =>
                  split
                  · next hstop =>
                      rw [hstop] at hr
                      exact ⟨[_], .stop, _, c', .stop hroom hs rfl hstop hr, rfl⟩
                  · next hstop =>
                      have hstop := Bool.eq_false_iff.mpr hstop
                      obtain ⟨frames, e, x', c'', hloop, heq⟩ :=
                        ih (k + 1) (tailAfter tail (E.tokenToStr s t)) (decoded x s t) c'
                      rw [show stopsAt st t (E.tokenToStr s t) ((Option.map (tailPush tail)
                        (E.tokenToStr s t)).getD tail) = false from hstop] at hr
                      refine ⟨_, e, x', c'', .next hroom hs rfl hstop hr hloop, ?_⟩
                      rw [List.length_cons, Nat.add_comm frames.length, ← Nat.add_assoc]
                      exact heq

/-! ## What the client was sent -/

theorem reply_true {c c' : Conn} {r : Reply} (h : reply c r = (c', true)) :
    c'.sent = c.sent ++ [r] ∧ c.broken = false ∧ c'.broken = false := by
  unfold reply at h
  split at h
  · cases h
  · next hb =>
      have hb := Bool.eq_false_iff.mpr hb
      split at h
      · cases h
      · injection h with h _
        subst h
        exact ⟨rfl, hb, hb⟩
      · injection h with h _
        subst h
        exact ⟨rfl, hb, hb⟩

theorem reply_false {c c' : Conn} {r : Reply} (h : reply c r = (c', false)) :
    c'.broken = true := by
  unfold reply at h
  split at h
  · next hb =>
      injection h with h _
      exact h ▸ hb
  · split at h
    · injection h with h _
      subst h
      rfl
    · cases h
    · cases h

section

variable {st : Stops} {fuel : Nat} {tail : CStr} {x x' : Sess E} {c c' : Conn}
  {frames : List Said} {e : GenEnd}

theorem Loop.sent (h : Loop st fuel tail x c frames e x' c') (hb : c'.broken = false) :
    e ≠ .client ∧ c'.sent = c.sent ++ frames.map Said.frame := by
  induction h with
  | max => exact ⟨nofun, (List.append_nil _).symm⟩
  | context _ => exact ⟨nofun, (List.append_nil _).symm⟩
  | error _ _ => exact ⟨nofun, (List.append_nil _).symm⟩
  | client _ _ _ _ hsend =>
      rw [reply_false hsend] at hb
      cases hb
  | stop _ _ _ _ hsend => exact ⟨nofun, (reply_true hsend).1⟩
  | next _ _ _ _ hsend _ ih =>
      obtain ⟨hne, hsent⟩ := ih hb
      refine ⟨hne, ?_⟩
      rw [hsent, (reply_true hsend).1, List.append_assoc, List.map_cons, List.singleton_append]
      rfl

theorem Loop.length_le (h : Loop st fuel tail x c frames e x' c') : frames.length ≤ fuel := by
  induction h with
  | max | context _ | error _ _ | client _ _ _ _ _ => exact Nat.zero_le _
  | stop _ _ _ _ _ => exact Nat.succ_le_succ (Nat.zero_le _)
  | next _ _ _ _ _ _ ih => exact Nat.succ_le_succ ih

/-! ## Which way out -/

/-- Only the last frame can have the flag, and it has it when the run stopped. -/
theorem Loop.flags (h : Loop st fuel tail x c frames e x' c') :
    (e = .stop → ∃ front f, frames = front ++ [f] ∧ f.stop = true ∧
      ∀ g ∈ front, g.stop = false) ∧
    (e ≠ .stop → ∀ f ∈ frames, f.stop = false) := by
  induction h with
  | max | context _ | error _ _ | client _ _ _ _ _ =>
      exact ⟨nofun, fun _ f hf => by cases hf⟩
  | stop _ _ _ _ _ => exact ⟨fun _ => ⟨[], _, rfl, rfl, nofun⟩, fun hne => absurd rfl hne⟩
  | next _ _ _ _ _ _ ih =>
      constructor
      · intro he
        obtain ⟨front, f, heq, hf, hfront⟩ := ih.1 he
        refine ⟨_ :: front, f, by rw [heq]; rfl, hf, fun g hg => ?_⟩
        rcases List.mem_cons.mp hg with rfl | hg
        · rfl
        · exact hfront g hg
      · intro hne f hf
        rcases List.mem_cons.mp hf with rfl | hf
        · rfl
        · exact ih.2 hne f hf

theorem Loop.max_iff (h : Loop st fuel tail x c frames e x' c') :
    e = .max ↔ frames.length = fuel ∧ ∀ f ∈ frames, f.stop = false := by
  induction h with
  | max => exact ⟨fun _ => ⟨rfl, nofun⟩, fun _ => rfl⟩
  | context _ | error _ _ | client _ _ _ _ _ =>
      exact ⟨nofun, fun h => absurd h.1.symm (Nat.succ_ne_zero _)⟩
  | stop _ _ _ _ _ =>
      exact ⟨nofun, fun h => absurd (h.2 _ List.mem_cons_self) (Bool.noConfusion ·)⟩
  | next _ _ _ _ _ _ ih =>
      rw [ih, List.length_cons]
      constructor
      · rintro ⟨hlen, hall⟩
        refine ⟨congrArg _ hlen, fun f hf => ?_⟩
        rcases List.mem_cons.mp hf with rfl | hf
        · rfl
        · exact hall f hf
      · rintro ⟨hlen, hall⟩
        exact ⟨Nat.succ.inj hlen, fun f hf => hall f (List.mem_cons_of_mem _ hf)⟩

theorem Loop.context_full (h : Loop st fuel tail x c frames e x' c') (he : e = .context) :
    CTX_CAP - 1 ≤ x'.hist.length := by
  induction h with
  | max | error _ _ | client _ _ _ _ _ | stop _ _ _ _ _ => cases he
  | context hfull => exact hfull
  | next _ _ _ _ _ _ ih => exact ih he

/-- The loop does not fill the last place of the context. -/
theorem Loop.cap (h : Loop st fuel tail x c frames e x' c')
    (hx : x.hist.length ≤ CTX_CAP - 1) : x'.hist.length ≤ CTX_CAP - 1 := by
  have hpush {x : Sess E} {s : E.Sess} {t : Int} (hroom : x.hist.length < CTX_CAP - 1) :
      (decoded x s t).hist.length ≤ CTX_CAP - 1 := by
    rw [decoded, List.length_append, List.length_singleton]
    omega
  induction h with
  | max => exact hx
  | context _ => exact hx
  | error _ _ => exact hx
  | client hroom _ _ _ _ => exact hpush hroom
  | stop hroom _ _ _ _ => exact hpush hroom
  | next hroom _ _ _ _ _ ih => exact ih (hpush hroom)

/-! ## What was decoded -/

/-- The calls of the engine's decode from one session state to another: the
tokens they returned, in order. A failed call returns none. -/
inductive Decodes (E : Engine) : E.Sess → List Int → E.Sess → Prop where
  | none (s : E.Sess) : Decodes E s [] s
  | failed {s s' : E.Sess} (h : E.decodeStep s = (Option.none, s')) : Decodes E s [] s'
  | one {s s' s'' : E.Sess} {t : Int} {ts : List Int} (h : E.decodeStep s = (some t, s'))
      (rest : Decodes E s' ts s'') : Decodes E s (t :: ts) s''

/-- The history grows by what was decoded: the tokens of the frames, and the one
whose frame a client that is gone did not take. -/
theorem Loop.decodes (h : Loop st fuel tail x c frames e x' c') :
    ∃ lost : List Int, Decodes E x.s (frames.map Said.token ++ lost) x'.s ∧
      x'.hist = x.hist ++ (frames.map Said.token ++ lost) ∧ (e ≠ .client → lost = []) := by
  induction h with
  | max => exact ⟨[], .none _, (List.append_nil _).symm, fun _ => rfl⟩
  | context _ => exact ⟨[], .none _, (List.append_nil _).symm, fun _ => rfl⟩
  | error _ hdecode => exact ⟨[], .failed hdecode, (List.append_nil _).symm, fun _ => rfl⟩
  | client _ hdecode _ _ _ =>
      exact ⟨[_], .one hdecode (.none _), rfl, fun hne => absurd rfl hne⟩
  | stop _ hdecode _ _ _ => exact ⟨[], .one hdecode (.none _), rfl, fun _ => rfl⟩
  | next _ hdecode _ _ _ _ ih =>
      obtain ⟨lost, hdec, hhist, hlost⟩ := ih
      refine ⟨lost, .one hdecode hdec, ?_, hlost⟩
      rw [hhist, decoded, List.append_assoc]
      rfl

end

/-! ## The whole op -/

variable {P : Platform}

/-- The most tokens a request asks for, clamped. -/
def maxOf (P : Platform) (j : Json) : Nat :=
  P.castSize (jsonClamp (jsonGet j "max") (.fin 256) (.fin 1) (.fin CTX_CAP)).1

/-- What `generate` does on a session with a history: a run of the loop and, if
the client is still there, the final frame. -/
theorem generate_loop {d : Daemon P} {i : Nat} {x : Sess P.E} {j : Json} {c : Conn}
    (hx : slot d.sess i = some x) (hne : x.hist ≠ []) :
    ∃ frames e x' c', Loop (d.genStops j) (maxOf P j) [] x c frames e x' c' ∧
      slot (d.generate (some i) j c).1.sess i = some x' ∧
      ((d.generate (some i) j c).2.1.broken = false → c'.broken = false ∧
        (d.generate (some i) j c).2.1.sent =
          c'.sent ++ [.generated (lit e.reason) frames.length x'.hist.length]) := by
  obtain ⟨frames, e, x', c', hloop, heq⟩ := genLoop_loop (d.genStops j) (maxOf P j) 0 [] x c
  have hgen : d.generate (some i) j c =
      ({ d with sess := d.sess.set i (some (opGenerate (d.genStops j) (maxOf P j) x c).1) },
        (opGenerate (d.genStops j) (maxOf P j) x c).2) := by
    rw [Daemon.generate, Option.bind_some, hx]
    rfl
  have hop : opGenerate (d.genStops j) (maxOf P j) x c =
      if c'.broken then (x', c', false)
      else (x', reply c' (.generated (lit e.reason) frames.length x'.hist.length)) := by
    rw [opGenerate, if_neg hne, heq, Nat.zero_add]
  refine ⟨frames, e, x', c', hloop, ?_, ?_⟩
  · rw [hgen, hop, slot_set_live hx, if_pos rfl]
    split <;> rfl
  · rw [hgen, hop]
    split
    · next hb =>
        intro hb'
        exact absurd hb' (Bool.not_eq_false _ ▸ hb)
    · next hb =>
        intro hb'
        have hb := Bool.eq_false_iff.mpr hb
        refine ⟨hb, ?_⟩
        generalize hr : reply c' _ = r at hb' ⊢
        obtain ⟨c'', ok⟩ := r
        cases ok with
        | true => exact (reply_true hr).1
        | false =>
            have hgone := reply_false hr
            rw [show c''.broken = false from hb'] at hgone
            cases hgone

/-- The books of a `generate`. Whatever the engine answers, the history grows by
exactly the tokens that were decoded, and by no more than the maximum. With a
client that stays these are the tokens of the frames, in order; the final frame
counts them, its `n` is the history's length, the flag `stop` is on the last
token frame and only when that is the reason, `max` is the reason exactly when
the maximum was reached without a stop, and `context` only when `n` is 4095. -/
theorem generate_accounts (d : Daemon P) (i : Nat) (x : Sess P.E) (j : Json) (c : Conn)
    (hx : slot d.sess i = some x) (hne : x.hist ≠ []) :
    ∃ (frames : List Said) (e : GenEnd) (lost : List Int) (x' : Sess P.E),
      slot (d.generate (some i) j c).1.sess i = some x' ∧
      Decodes P.E x.s (frames.map Said.token ++ lost) x'.s ∧
      x'.hist = x.hist ++ (frames.map Said.token ++ lost) ∧
      frames.length ≤ maxOf P j ∧
      ((d.generate (some i) j c).2.1.broken = false →
        lost = [] ∧
        (d.generate (some i) j c).2.1.sent = c.sent ++ frames.map Said.frame ++
          [.generated (lit e.reason) frames.length (x.hist.length + frames.length)] ∧
        e ≠ .client ∧
        (∀ f ∈ frames.dropLast, f.stop = false) ∧
        (e = .stop ↔ ∃ f, frames.getLast? = some f ∧ f.stop = true) ∧
        (e = .max ↔ frames.length = maxOf P j ∧ ∀ f ∈ frames, f.stop = false) ∧
        (e = .context → 4095 ≤ x.hist.length + frames.length) ∧
        (x.hist.length ≤ 4095 → x.hist.length + frames.length ≤ 4095)) := by
  obtain ⟨frames, e, x', c', hloop, hslot, hsent⟩ := generate_loop (j := j) (c := c) hx hne
  obtain ⟨lost, hdec, hhist, hlost⟩ := hloop.decodes
  refine ⟨frames, e, lost, x', hslot, hdec, hhist, hloop.length_le, fun hb => ?_⟩
  obtain ⟨hb', hfinal⟩ := hsent hb
  obtain ⟨hclient, hframes⟩ := hloop.sent hb'
  have hnone := hlost hclient
  have hn : x'.hist.length = x.hist.length + frames.length := by
    rw [hhist, hnone, List.append_nil, List.length_append, List.length_map]
  refine ⟨hnone, by rw [hfinal, hframes, hn], hclient, ?_, ?_, hloop.max_iff, ?_, ?_⟩
  · intro f hf
    by_cases he : e = .stop
    · obtain ⟨front, g, heq, _, hfront⟩ := hloop.flags.1 he
      rw [heq, List.dropLast_concat] at hf
      exact hfront f hf
    · exact hloop.flags.2 he f (List.dropLast_subset frames hf)
  · constructor
    · intro he
      obtain ⟨front, g, heq, hg, _⟩ := hloop.flags.1 he
      exact ⟨g, by rw [heq, List.getLast?_concat], hg⟩
    · rintro ⟨f, hf, hstop⟩
      by_contra he
      have hno := hloop.flags.2 he f (List.mem_of_getLast? hf)
      rw [hstop] at hno
      cases hno
  · intro he
    rw [← hn]
    exact hloop.context_full he
  · intro hcap
    rw [← hn]
    exact hloop.cap hcap

/-- A daemon with one session, whose history is one token. -/
def oneSession : Daemon plain :=
  { plainDaemon 1 0 none false with
    sess := [some { id := lit "s", s := ⟨[0], []⟩, hist := [0], used := 0 }] }

theorem generate_accounts_two :
    ∃ (frames : List Said) (e : GenEnd),
      (oneSession.generate (some 0) [(lit "max", .num (.fin 2))] {}).2.1.sent =
        frames.map Said.frame ++ [.generated (lit e.reason) frames.length (1 + frames.length)] ∧
      frames.length ≤ 4096 := by
  obtain ⟨frames, e, lost, x', _, _, _, _, hstay⟩ :=
    generate_accounts oneSession 0 _ [(lit "max", .num (.fin 2))] {} rfl (by decide)
  obtain ⟨_, hsent, _, _, _, _, _, hcap⟩ := hstay rfl
  refine ⟨frames, e, hsent, ?_⟩
  have hle := hcap (by decide)
  omega

/-! ## Stop strings

The stop strings are looked for in a tail of 511 bytes. A match that is completed
by a piece ends inside of it and begins less than its own length before it, so a
tail that is one byte short of both together is enough to see it. -/

section

variable {E : Engine} {st : Stops} {fuel : Nat} {tail : CStr} {x x' : Sess E} {c c' : Conn}
  {frames : List Said} {e : GenEnd}

/-- The first `n` tokens that the engine decodes from a session, with their
pieces; fewer if a decode fails. -/
def outputs (E : Engine) : Nat → E.Sess → List (Int × Option CStr)
  | 0, _ => []
  | n + 1, s =>
      match E.decodeStep s with
      | (none, _) => []
      | (some t, s') => (t, E.tokenToStr s' t) :: outputs E n s'

/-- The text of the pieces. -/
def spoken (out : List (Int × Option CStr)) : CStr := out.flatMap fun o => o.2.getD []

/-- One of the strings is in the text. -/
def Hit (strings : List CStr) (text : CStr) : Prop := ∃ s ∈ strings, s <:+: text

instance (strings : List CStr) (text : CStr) : Decidable (Hit strings text) :=
  inferInstanceAs (Decidable (∃ s ∈ strings, s <:+: text))

def Said.output (f : Said) : Int × Option CStr := (f.token, f.piece)

/-- A token that is no stop by itself and whose piece is short enough for the
tail. -/
def Quiet (st : Stops) (o : Int × Option CStr) : Prop :=
  modelIsStop st.eos st.eot o.1 = false ∧ o.1 ∉ st.ids ∧
    ∀ p, o.2 = some p → ∀ s ∈ st.strings, s.length + p.length ≤ 512

theorem tailPush_newest (text p : CStr) :
    tailPush (newest 511 text) p = newest 511 (text ++ p) := by
  rw [tailPush]
  split
  · next hlong =>
      have hcut : (text ++ p).length - 511 = text.length + (p.length - 511) := by
        rw [List.length_append]
        omega
      rw [newest, hcut, List.drop_append, List.drop_eq_nil_of_le (Nat.le_add_right _ _),
        List.nil_append, Nat.add_sub_cancel_left]
  · next hshort =>
      rw [← newest_append]
      generalize newest 511 text = tail
      rw [newest, List.length_append]
      exact (List.drop_append_of_le_length (by omega)).symm

/-- The tail stays the newest bytes of the text. -/
theorem tailAfter_newest (text : CStr) (p : Option CStr) :
    tailAfter (newest 511 text) p = newest 511 (text ++ p.getD []) := by
  cases p with
  | none => rw [tailAfter, Option.map_none, Option.getD_none, Option.getD_none, List.append_nil]
  | some p => exact tailPush_newest text p

/-- A quiet token stops the answer exactly when its piece completes a stop
string. -/
theorem stopsAt_quiet {t : Int} {p : Option CStr} {text : CStr} (hq : Quiet st (t, p))
    (hno : ¬ Hit st.strings text) :
    stopsAt st t p (newest 511 (text ++ p.getD [])) = true ↔
      Hit st.strings (text ++ p.getD []) := by
  obtain ⟨heot, hid, hlen⟩ := hq
  have hid : st.ids.contains t = false :=
    Bool.eq_false_iff.mpr fun h => hid (List.contains_iff_mem.mp h)
  rw [stopsAt, heot, Bool.false_or, hid, Bool.false_or]
  cases p with
  | none =>
      rw [Option.getD_none, List.append_nil]
      exact ⟨fun h => Bool.noConfusion h, fun h => absurd h hno⟩
  | some p =>
      rw [Option.getD_some, Option.isSome_some, Bool.true_and, List.any_eq_true]
      constructor
      · rintro ⟨s, hs, hin⟩
        rw [strstr_iff] at hin
        exact ⟨s, hs, (infix_newest (fun h => hno ⟨s, hs, h⟩) (hlen p rfl s hs)).mp hin⟩
      · rintro ⟨s, hs, hin⟩
        refine ⟨s, hs, strstr_iff.mpr ?_⟩
        exact (infix_newest (fun h => hno ⟨s, hs, h⟩) (hlen p rfl s hs)).mpr hin

theorem Loop.outputs (h : Loop st fuel tail x c frames e x' c') :
    frames.map Said.output = outputs E frames.length x.s := by
  induction h with
  | max | context _ | error _ _ | client _ _ _ _ _ => rfl
  | stop _ hdecode hp _ _ =>
      rw [List.length_singleton, Proofs.outputs, hdecode]
      subst hp
      rfl
  | next _ hdecode hp _ _ _ ih =>
      rw [List.length_cons, Proofs.outputs, hdecode, List.map_cons, ih]
      subst hp
      rfl

theorem Loop.error_short (h : Loop st fuel tail x c frames e x' c') (he : e = .error) :
    (Proofs.outputs E (frames.length + 1) x.s).length = frames.length := by
  induction h with
  | max | context _ | client _ _ _ _ _ | stop _ _ _ _ _ => cases he
  | error _ hdecode => rw [Proofs.outputs, hdecode]; rfl
  | next _ hdecode _ _ _ _ ih =>
      rw [List.length_cons, Proofs.outputs, hdecode, List.length_cons]
      exact congrArg Nat.succ (ih he)

/-- Along quiet tokens the text has a stop string after the last frame of a run
that stopped, and nowhere before. -/
theorem Loop.hits (h : Loop st fuel tail x c frames e x' c') :
    ∀ {text : CStr}, tail = newest 511 text → ¬ Hit st.strings text →
      ∀ n ≤ frames.length, (∀ f ∈ frames.take n, Quiet st f.output) →
        (Hit st.strings (text ++ spoken ((frames.take n).map Said.output)) ↔
          n = frames.length ∧ e = .stop) := by
  have hzero {text : CStr} {frames : List Said} {q : Prop} (hno : ¬ Hit st.strings text)
      (hq : 0 = frames.length → ¬ q) :
      Hit st.strings (text ++ spoken ((frames.take 0).map Said.output)) ↔
        0 = frames.length ∧ q := by
    rw [List.take_zero]
    refine ⟨fun h => absurd (List.append_nil text ▸ h) hno, fun h => absurd h.2 (hq h.1)⟩
  induction h with
  | max | context _ | error _ _ | client _ _ _ _ _ =>
      intro text _ hno n hn _
      obtain rfl : n = 0 := Nat.le_zero.mp hn
      exact hzero hno fun _ => nofun
  | @stop fuel tail x c s t p c' _ _ _ hstop _ =>
      intro text htail hno n hn hquiet
      cases n with
      | zero => exact hzero hno fun h => by cases h
      | succ n =>
          obtain rfl : n = 0 := Nat.le_zero.mp (Nat.le_of_succ_le_succ hn)
          have hq : Quiet st (t, p) := hquiet ⟨t, true, p⟩ List.mem_cons_self
          rw [htail, tailAfter_newest] at hstop
          have hhit := (stopsAt_quiet hq hno).mp hstop
          refine ⟨fun _ => ⟨rfl, rfl⟩, fun _ => ?_⟩
          show Hit st.strings (text ++ (p.getD [] ++ []))
          rwa [List.append_nil]
  | @next fuel tail x c s t p c' frames e x' c'' _ _ _ hstop _ _ ih =>
      intro text htail hno n hn hquiet
      cases n with
      | zero => exact hzero hno fun h => by cases h
      | succ n =>
          rw [List.take_succ_cons] at hquiet ⊢
          have hq : Quiet st (t, p) := hquiet _ List.mem_cons_self
          have htail' : tailAfter tail p = newest 511 (text ++ p.getD []) := by
            rw [htail, tailAfter_newest]
          rw [htail'] at hstop
          have hno' : ¬ Hit st.strings (text ++ p.getD []) := fun hhit => by
            rw [(stopsAt_quiet hq hno).mpr hhit] at hstop
            cases hstop
          have hrest := ih htail' hno' n
            (Nat.le_of_succ_le_succ hn) fun f hf => hquiet f (List.mem_cons_of_mem _ hf)
          rw [List.append_assoc] at hrest
          rw [List.length_cons, Nat.succ_inj]
          exact hrest

end

theorem outputs_take (E : Engine) : ∀ (m n : Nat) (s : E.Sess), n ≤ m →
    outputs E n s = (outputs E m s).take n := by
  intro m
  induction m with
  | zero =>
      intro n s hn
      rw [Nat.le_zero.mp hn]
      rfl
  | succ m ih =>
      intro n s hn
      cases n with
      | zero => rfl
      | succ n =>
          rw [outputs, outputs]
          split
          · rfl
          · next t s' _ => rw [List.take_succ_cons, ih n s' (Nat.le_of_succ_le_succ hn)]

theorem strArray_strings {n : Nat} {strings : List CStr} (h : strings.length ≤ n) :
    strArray n (some (.arr (strings.map .str))) = strings := by
  have hall : (strings.map JVal.str).filterMap (fun v => jsonStrdup (some v)) = strings := by
    rw [List.filterMap_map]
    exact List.filterMap_some
  rw [strArray, hall, List.take_of_length_le h]

/-- The stop strings of a request, and nothing else that could end its answer
within the first `m` tokens: these decode, none of them is a stop by itself, and
neither the maximum nor the context is reached before the last of them. Then the
text decides. If it has a stop string after `n` tokens and not before, the client
is sent these `n` tokens and the reason `stop`; if it has none, generate goes on
past them. -/
theorem generate_stops_at_first_match (d : Daemon P) (i : Nat) (x : Sess P.E) (j : Json)
    (c : Conn) (strings : List CStr) (m : Nat) (hx : slot d.sess i = some x)
    (hne : x.hist ≠ []) (hstrings : jsonGet j "stop_strings" = some (.arr (strings.map .str)))
    (hcount : strings.length ≤ 8) (hnonempty : ∀ s ∈ strings, s ≠ [])
    (hpieces : (outputs P.E m x.s).length = m)
    (hlen : ∀ o ∈ outputs P.E m x.s, ∀ p, o.2 = some p → ∀ s ∈ strings,
      s.length + p.length ≤ 512)
    (hend : ∀ o ∈ outputs P.E m x.s,
      modelIsStop d.eos d.eot o.1 = false ∧ o.1 ∉ (d.genStops j).ids)
    (hmax : m ≤ maxOf P j) (hctx : x.hist.length + m ≤ 4095)
    (hstay : (d.generate (some i) j c).2.1.broken = false) :
    (∀ n ≤ m, Hit strings (spoken (outputs P.E n x.s)) →
      (∀ k < n, ¬ Hit strings (spoken (outputs P.E k x.s))) →
      ∃ frames : List Said, frames.map Said.output = outputs P.E n x.s ∧
        (d.generate (some i) j c).2.1.sent = c.sent ++ frames.map Said.frame ++
          [.generated (lit "stop") n (x.hist.length + n)]) ∧
    ((∀ n ≤ m, ¬ Hit strings (spoken (outputs P.E n x.s))) →
      ∃ rest, (d.generate (some i) j c).2.1.sent =
        c.sent ++ (outputs P.E m x.s).map (fun o => .token o.1 false o.2) ++ rest) := by
  obtain ⟨frames, e, x', c', hloop, _, hsent⟩ := generate_loop (j := j) (c := c) hx hne
  obtain ⟨hb, hfinal⟩ := hsent hstay
  obtain ⟨hclient, hframes⟩ := hloop.sent hb
  obtain ⟨lost, _, hhist, hlost⟩ := hloop.decodes
  have hst : (d.genStops j).strings = strings := by
    show strArray 8 (jsonGet j "stop_strings") = strings
    rw [hstrings, strArray_strings hcount]
  have hn : x'.hist.length = x.hist.length + frames.length := by
    rw [hhist, hlost hclient, List.append_nil, List.length_append, List.length_map]
  have hlead : ∀ {n : Nat}, n ≤ m → n ≤ frames.length →
      (frames.take n).map Said.output = outputs P.E n x.s := fun _ hle => by
    rw [List.map_take, hloop.outputs, ← outputs_take _ _ _ _ hle]
  have hquiet : ∀ {n : Nat}, n ≤ m → n ≤ frames.length →
      ∀ f ∈ frames.take n, Quiet (d.genStops j) f.output := fun {n} hnm hle f hf => by
    have hmem : f.output ∈ outputs P.E m x.s := by
      have hin := List.mem_map_of_mem (f := Said.output) hf
      rw [hlead hnm hle, outputs_take _ _ _ _ hnm] at hin
      exact List.mem_of_mem_take hin
    exact ⟨(hend _ hmem).1, (hend _ hmem).2, fun p hp s hs => hlen _ hmem p hp s (hst ▸ hs)⟩
  -- the text after `n` frames, by the run
  have hhits : ∀ {n : Nat}, n ≤ m → n ≤ frames.length →
      (Hit strings (spoken (outputs P.E n x.s)) ↔ n = frames.length ∧ e = .stop) := by
    intro n hnm hle
    have hnone : ¬ Hit (d.genStops j).strings [] := by
      rintro ⟨s, hs, hin⟩
      exact hnonempty s (hst ▸ hs) (List.eq_nil_of_infix_nil hin)
    have htail : ([] : CStr) = newest 511 [] := by rw [newest, List.drop_nil]
    have h := hloop.hits htail hnone n hle (hquiet hnm hle)
    rwa [List.nil_append, hst, hlead hnm hle] at h
  -- nothing but a stop ends the run within the first `m` tokens
  have hstops : frames.length < m → e = .stop := by
    intro hlt
    cases e with
    | max =>
        have hall := (hloop.max_iff.mp rfl).1
        omega
    | context =>
        have hfull := hloop.context_full rfl
        rw [CTX_CAP] at hfull
        omega
    | error =>
        have hshort := hloop.error_short rfl
        rw [outputs_take _ _ _ _ hlt, List.length_take, hpieces] at hshort
        omega
    | client => exact absurd rfl hclient
    | stop => rfl
  constructor
  · intro n hnm hhit hfirst
    have hge : n ≤ frames.length := by
      by_contra hlt
      have hlt : frames.length < n := Nat.not_le.mp hlt
      have hstop := hstops (by omega)
      exact hfirst _ hlt ((hhits (by omega) (Nat.le_refl _)).mpr ⟨rfl, hstop⟩)
    obtain ⟨heq, hstop⟩ := (hhits hnm hge).mp hhit
    refine ⟨frames, ?_, ?_⟩
    · rw [heq]
      exact hloop.outputs
    · rw [hfinal, hframes, hn, ← heq, hstop]
      rfl
  · intro hno
    have hge : m ≤ frames.length := by
      by_contra hlt
      have hlt : frames.length < m := Nat.not_le.mp hlt
      exact hno _ (by omega) ((hhits (by omega) (Nat.le_refl _)).mpr ⟨rfl, hstops hlt⟩)
    have hflags : ∀ f ∈ frames.take m, f.stop = false := by
      intro f hf
      by_cases he : e = .stop
      · obtain ⟨front, g, heq, _, hfront⟩ := hloop.flags.1 he
        have hlt : m < frames.length := by
          refine lt_of_le_of_ne hge fun hm => ?_
          exact hno m (Nat.le_refl m) ((hhits (Nat.le_refl m) hge).mpr ⟨hm, he⟩)
        rw [heq, List.length_append, List.length_singleton] at hlt
        rw [heq, List.take_append_of_le_length (by omega)] at hf
        exact hfront f (List.mem_of_mem_take hf)
      · exact hloop.flags.2 he f (List.mem_of_mem_take hf)
    have hsame : (frames.take m).map Said.frame =
        (outputs P.E m x.s).map fun o => .token o.1 false o.2 := by
      rw [← hlead (Nat.le_refl m) hge, List.map_map]
      refine List.map_congr_left fun f hf => ?_
      rw [Said.frame, hflags f hf]
      rfl
    refine ⟨(frames.drop m).map Said.frame ++
      [.generated (lit e.reason) frames.length x'.hist.length], ?_⟩
    have hsplit : frames.map Said.frame =
        (frames.take m).map Said.frame ++ (frames.drop m).map Said.frame := by
      rw [← List.map_append, List.take_append_drop]
    rw [hfinal, hframes, ← hsame, hsplit]
    simp only [List.append_assoc]

/-- A stop string that begins in one piece and ends in the next. -/
theorem generate_stops_at_first_match_spanning :
    ∃ frames : List Said, frames.map Said.output = outputs plain.E 3 ⟨[0], []⟩ ∧
      (oneSession.generate (some 0)
        [(lit "stop_strings", .arr [.str [2, 3]])] {}).2.1.sent =
        frames.map Said.frame ++ [.generated (lit "stop") 3 4] := by
  have h := generate_stops_at_first_match oneSession 0 _
    [(lit "stop_strings", .arr [.str [2, 3]])] {} [[2, 3]] 3 rfl (by decide) rfl (by decide)
    (by decide) rfl (by decide) (by decide) (by decide) (by decide) rfl
  exact h.1 3 (Nat.le_refl 3) ⟨[2, 3], List.mem_cons_self, ⟨[1], [], rfl⟩⟩ (by decide)

end GeistServe.Proofs
