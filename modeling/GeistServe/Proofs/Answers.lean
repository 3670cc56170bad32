import GeistServe.Proofs.Spelling

/-!
# Streamed and whole answers

Three ways to send an answer, and the mirror beside them, put the same parts together with their own
buffers and escapes. `Sent p c` says what the client of the proxy has: a head and events whose
content is `c` and none of which ends the response, nothing yet, or, where the answer is not
streamed, nothing and `c` in the buffer. Every callback adds to `c`, and one that accepts a part of
the answer adds just its text. The exits then put one last event behind it.

The same walk, made by two proxies whose parts differ in what was thought, shows that a completion
tells nothing of it.
-/

namespace GeistServe.Proofs

open GeistServe.Lib GeistServe.Geistd GeistServe.App GeistServe.Json

/-! ## What the client has -/

def headOf (a : Api) : Bytes := if a = .app then ndjsonHead else sseHead

def eventOf (a : Api) : Bytes → Option View := if a = .app then appEvent else streamEvent

/-- What the client has of the answer: `c` is the content so far. -/
inductive Sent (p : Proxy) (c : Bytes) : Prop
  | whole (hapi : p.api = .whole) (hstart : p.started = false) (hfd : p.fd = {})
      (htext : p.text.failed = false → p.text.data = c)
  | quiet (hapi : p.api ≠ .whole) (hstart : p.started = false) (hfd : p.fd = {}) (hc : c = [])
  | begun (hapi : p.api ≠ .whole) (hstart : p.started = true) (body : Bytes)
      (hfd : p.fd = ⟨headOf p.api ++ body, none⟩) (hbody : Body (eventOf p.api) body ⟨c, 0⟩)

/-- The fields that the client's side depends on. -/
def wire (p : Proxy) : Api × Bytes × Bytes × Fd × Buffer × Bool :=
  (p.api, p.id, p.model, p.fd, p.text, p.started)

/-- A proxy after some callbacks, which have added `s` to the content. -/
structure Adds (p p' : Proxy) (s : Bytes) : Prop where
  api : p'.api = p.api
  id : p'.id = p.id
  model : p'.model = p.model
  sent : ∀ c, Sent p c → Sent p' (c ++ s)

theorem Adds.same {p p' : Proxy} (h : wire p' = wire p) : Adds p p' [] := by
  simp only [wire, Prod.mk.injEq] at h
  obtain ⟨hapi, hid, hmodel, hfd, htext, hstart⟩ := h
  refine ⟨hapi, hid, hmodel, fun c hs => ?_⟩
  rw [List.append_nil]
  cases hs with
  | whole ha hs hf ht =>
      exact .whole (hapi.trans ha) (hstart.trans hs) (hfd.trans hf) (by rw [htext]; exact ht)
  | quiet ha hs hf hc =>
      exact .quiet (by rw [hapi]; exact ha) (hstart.trans hs) (hfd.trans hf) hc
  | begun ha hs body hf hb =>
      exact .begun (by rw [hapi]; exact ha) (hstart.trans hs) body
        (by rw [hapi]; exact hfd.trans hf) (by rw [hapi]; exact hb)

theorem Adds.refl (p : Proxy) : Adds p p [] := .same rfl

theorem Adds.trans {p p' p'' : Proxy} {s t : Bytes} (h : Adds p p' s) (h' : Adds p' p'' t) :
    Adds p p'' (s ++ t) where
  api := h'.api.trans h.api
  id := h'.id.trans h.id
  model := h'.model.trans h.model
  sent := by
    intro c hs
    rw [← List.append_assoc]
    exact h'.sent _ (h.sent c hs)

theorem Adds.quiet_trans {p p' p'' : Proxy} {t : Bytes} (h : Adds p p' []) (h' : Adds p' p'' t) :
    Adds p p'' t := h.trans h'

theorem send_connected (sent data : Bytes) :
    Fd.send ⟨sent, none⟩ data = (⟨sent ++ data, none⟩, true) := rfl

/-- More events of a response that has begun. -/
theorem Adds.emit {p : Proxy} {l s : Bytes} (hstart : p.started = true)
    (hl : Body (eventOf p.api) l ⟨s, 0⟩) : Adds p (p.emit l).1 s where
  api := rfl
  id := rfl
  model := rfl
  sent := by
    intro c hs
    cases hs with
    | whole _ hs _ _ => cases hstart.symm.trans hs
    | quiet _ hs _ _ => cases hstart.symm.trans hs
    | begun ha hs body hf hb =>
        have hsend : p.fd.send l = (⟨headOf p.api ++ (body ++ l), none⟩, true) := by
          rw [hf, ← List.append_assoc]
          rfl
        refine .begun ha hs (body ++ l) ?_ (hb.append hl)
        show (p.fd.send l).1 = _
        rw [hsend]
        rfl

/-- A callback that sends `text`, all of it if it says so, and else perhaps nothing. -/
def Gives (p : Proxy) (r : Proxy × Bool) (text : Bytes) : Prop :=
  ∃ s, Adds p r.1 s ∧ (r.2 = true → s = text) ∧ (s = text ∨ s = [])

theorem Gives.adds {p : Proxy} {r : Proxy × Bool} (h : Gives p r []) : Adds p r.1 [] := by
  obtain ⟨s, hadds, _, rfl | rfl⟩ := h
  · exact hadds
  · exact hadds

theorem Adds.gives {p : Proxy} {r : Proxy × Bool} {text : Bytes} (h : Adds p r.1 text) :
    Gives p r text := ⟨text, h, fun _ => rfl, .inl rfl⟩

/-- A callback that gave nothing has stopped. -/
theorem Adds.stops {p p' : Proxy} (h : Adds p p' []) (text : Bytes) : Gives p (p', false) text :=
  ⟨[], h, fun hf => (by cases hf), .inr rfl⟩

theorem Gives.after {p p' : Proxy} {r : Proxy × Bool} {text : Bytes} (h : Adds p p' [])
    (h' : Gives p' r text) : Gives p r text := by
  obtain ⟨s, hadds, hok, hor⟩ := h'
  exact ⟨s, h.quiet_trans hadds, hok, hor⟩

/-- A callback that gives its text and then only events. -/
theorem Gives.then {p p' : Proxy} {r : Proxy × Bool} {text : Bytes} (h : Gives p (p', true) text)
    (h' : Adds p' r.1 []) : Gives p r text := by
  obtain ⟨s, hadds, hok, _⟩ := h
  have hs : s = text := hok rfl
  have := hadds.trans h'
  rw [List.append_nil, hs] at this
  exact this.gives

/-! ## The app's callbacks -/

section AppCallbacks

variable {p : Proxy}

theorem adds_proxyHead (happ : p.api = .app) : Adds p (proxyHead p).1 [] := by
  unfold proxyHead
  split
  · exact .refl p
  · next hstart =>
      refine ⟨rfl, rfl, rfl, fun c hs => ?_⟩
      have hne : p.api ≠ .whole := by rw [happ]; decide
      cases hs with
      | whole ha _ _ _ => exact absurd ha hne
      | begun _ hs _ _ _ => exact absurd hs hstart
      | quiet _ _ hf hc =>
          have hsend : p.fd.send ndjsonHead = (⟨ndjsonHead, none⟩, true) := by
            rw [hf, send_connected, List.nil_append]
          have hhead : headOf p.api = ndjsonHead := if_pos happ
          refine .begun hne ?_ [] ?_ ?_
          · show (p.fd.send ndjsonHead).2 = true
            rw [hsend]
          · show (p.fd.send ndjsonHead).1 = ⟨headOf p.api ++ [], none⟩
            rw [hsend, hhead, List.append_nil]
          · rw [hc]
            exact .nil _

theorem proxyHead_started {p' : Proxy} (h : proxyHead p = (p', true)) : p'.started = true := by
  unfold proxyHead at h
  split at h
  · next hstart =>
      cases h
      exact hstart
  · injection h with hp hok
    rw [← hp]
    exact hok

theorem eventOf_app (happ : p.api = .app) : eventOf p.api = appEvent := if_pos happ

theorem adds_proxyEvent (happ : p.api = .app) {json : Bytes} (hjson : Body appEvent json {}) :
    Adds p (proxyEvent p json).1 [] := by
  have hhead := adds_proxyHead happ
  unfold proxyEvent
  split
  · next p' heq =>
      rw [heq] at hhead
      refine hhead.quiet_trans (.emit (proxyHead_started heq) ?_)
      rw [eventOf_app (hhead.api.trans happ)]
      exact hjson
  · next p' heq =>
      rw [heq] at hhead
      exact hhead

theorem adds_proxyThinking (happ : p.api = .app) (text : Bytes) :
    Adds p (proxyThinking p text).1 [] := by
  unfold proxyThinking
  dsimp only
  split
  · exact .refl p
  · next hok =>
      have hwrites := ((writes_put { cap := 4096 } (lit "\x7b\"thinking\":")).trans
        (writes_quote _ text)).trans (writes_put _ (lit "\x7d\n"))
      have hdata := hwrites.fresh.1 (Bool.eq_false_iff.mpr hok)
      rw [hdata]
      exact adds_proxyEvent happ (thinking_body text)

theorem adds_noteAnswer (m : Moment) (text : Bytes) : Adds p (p.noteAnswer m text) [] := by
  unfold Proxy.noteAnswer
  split
  · exact .same rfl
  · exact .refl p

theorem gives_proxySend (happ : p.api = .app) (m : Moment) {text : Bytes}
    (htext : (0 : UInt8) ∉ text) : Gives p (proxySend p m text) text := by
  have hnote : Adds p (p.noteAnswer m text) [] := adds_noteAnswer m text
  have hhead := hnote.quiet_trans (adds_proxyHead (hnote.api.trans happ))
  unfold proxySend
  split
  · next p' heq =>
      rw [heq] at hhead
      exact hhead.stops text
  · next p' heq =>
      rw [heq] at hhead
      dsimp only
      split
      · exact hhead.stops text
      · next hok =>
          have hwrites := ((writes_put { cap := 16384 } (lit "\x7b\"response\":")).trans
            (writes_quote _ text)).trans (writes_put _ (lit ",\"done\":false\x7d\n"))
          have hdata := hwrites.fresh.1 (Bool.eq_false_iff.mpr hok)
          rw [hdata, response_print]
          refine .after hhead (Adds.gives (.emit (proxyHead_started heq) ?_))
          rw [eventOf_app (hhead.api.trans happ)]
          exact response_body htext

theorem proxySend_started {m : Moment} {text : Bytes} {p' : Proxy}
    (h : proxySend p m text = (p', true)) : p'.started = true := by
  unfold proxySend at h
  split at h
  · cases h
  · next p₁ heq =>
      dsimp only at h
      split at h
      · cases h
      · have hp : p₁.started = p'.started :=
          congrArg (fun r : Proxy × Bool => r.1.started) h
        rw [← hp]
        exact proxyHead_started heq

theorem adds_beat (happ : p.api = .app) (hstart : p.started = true) :
    Adds p (p.emit (if p.thinkingNow ∧ p.firstAnswer = 0 then
      lit "\x7b\"phase\":\"preparing\"\x7d\n" else lit "\x7b\"heartbeat\":true\x7d\n")).1 [] := by
  refine .emit hstart ?_
  rw [eventOf_app happ]
  split
  · exact preparing_body
  · exact heartbeat_body

theorem adds_proxyKeepalive (happ : p.api = .app) (m : Moment) :
    Adds p (proxyKeepalive p m).1 [] := by
  have hsend := (gives_proxySend happ m List.not_mem_nil).adds
  unfold proxyKeepalive
  dsimp only
  split
  · next hstart => exact adds_beat happ hstart
  · split
    · next p' heq =>
        rw [heq] at hsend
        exact hsend
    · next p' heq =>
        rw [heq] at hsend
        exact hsend.quiet_trans (adds_beat (hsend.api.trans happ) (proxySend_started heq))

end AppCallbacks

/-! ## The callbacks of a completion -/

section CompletionCallbacks

variable {p : Proxy}

theorem adds_completionHead (hapi : p.api = .stream) : Adds p (completionHead p).1 [] := by
  have hne : p.api ≠ .whole := by rw [hapi]; decide
  have hhead : headOf p.api = sseHead := if_neg (by rw [hapi]; decide)
  unfold completionHead
  split
  · exact .refl p
  · next hstart =>
      -- What is sent before the head is nothing, so that the connection takes the head.
      have hsent : ∀ c, Sent p c → p.fd = {} ∧ c = [] := by
        intro c hs
        cases hs with
        | whole ha _ _ _ => exact absurd ha hne
        | begun _ hs _ _ _ => exact absurd hs hstart
        | quiet _ _ hf hc => exact ⟨hf, hc⟩
      have hemit (hf : p.fd = {}) : p.emit sseHead = ({ p with fd := ⟨sseHead, none⟩ }, true) := by
        show ({ p with fd := (p.fd.send sseHead).1 }, (p.fd.send sseHead).2) = _
        rw [hf, send_connected, List.nil_append]
      split
      · next p' heq =>
          have hp : p' = (p.emit sseHead).1 := by rw [heq]
          refine ⟨by rw [hp]; rfl, by rw [hp]; rfl, by rw [hp]; rfl, fun c hs => ?_⟩
          rw [hemit (hsent c hs).1] at heq
          cases heq
      · next p' heq =>
          have hp : p' = (p.emit sseHead).1 := by rw [heq]
          refine ⟨by rw [hp]; rfl, by rw [hp]; rfl, by rw [hp]; rfl, fun c hs => ?_⟩
          obtain ⟨hf, hc⟩ := hsent c hs
          rw [hp, hemit hf, hc]
          refine .begun hne rfl [] ?_ (.nil _)
          show (⟨sseHead, none⟩ : Fd) = ⟨headOf p.api ++ [], none⟩
          rw [hhead, List.append_nil]

theorem completionHead_started {p' : Proxy} (h : completionHead p = (p', true)) :
    p'.started = true := by
  unfold completionHead at h
  split at h
  · next hstart =>
      cases h
      exact hstart
  · split at h
    · cases h
    · cases h
      rfl

theorem eventOf_stream (hapi : p.api = .stream) : eventOf p.api = streamEvent :=
  if_neg (by rw [hapi]; decide)

/-- A part that goes to the buffer of a completion in one body. -/
theorem adds_text (hapi : p.api = .whole) (text : Bytes) :
    Adds p { p with text := p.text.put text } text := by
  refine ⟨rfl, rfl, rfl, fun c hs => ?_⟩
  cases hs with
  | quiet ha _ _ _ => exact absurd hapi ha
  | begun ha _ _ _ _ => exact absurd hapi ha
  | whole _ hs hf ht =>
      refine .whole hapi hs hf fun hok => ?_
      obtain ⟨hok', hdata⟩ := (writes_put p.text text).data hok
      show (p.text.put text).data = c ++ text
      rw [hdata, ht hok']

theorem gives_completionSend (hapi : p.api ≠ .app) (m : Moment) {text : Bytes}
    (htext : (0 : UInt8) ∉ text) : Gives p (completionSend p m text) text := by
  have hnote : Adds p (p.noteAnswer m text) [] := adds_noteAnswer m text
  unfold completionSend
  dsimp only
  split
  · next hwhole => exact .after hnote (Adds.gives (adds_text hwhole text))
  · next hwhole =>
      have hstream : (p.noteAnswer m text).api = .stream := by
        rw [hnote.api] at hwhole ⊢
        cases ha : p.api with
        | app => exact absurd ha hapi
        | stream => rfl
        | whole => exact absurd ha hwhole
      have hhead := hnote.quiet_trans (adds_completionHead hstream)
      split
      · next p' heq =>
          rw [heq] at hhead
          exact hhead.stops text
      · next p' heq =>
          rw [heq] at hhead
          split
          · exact hhead.stops text
          · next hok =>
              have hwrites := ((((writes_put { cap := 16384 } (lit "data: ")).trans
                (writes_completionPrefix _ p' true m.date)).trans (writes_put _
                (lit (",\"choices\":[\x7b\"index\":0,\"delta\":\x7b\"role\":\"assistant\"," ++
                  "\"content\":")))).trans (writes_quote _ text)).trans
                (writes_put _ (lit "\x7d,\"finish_reason\":null\x7d]\x7d\n\n"))
              have hdata := hwrites.fresh.1 (Bool.eq_false_iff.mpr hok)
              refine .after hhead (Adds.gives (.emit (completionHead_started heq) ?_))
              rw [eventOf_stream (hhead.api.trans (hnote.api.symm.trans hstream))]
              exact chunk_body htext hdata

theorem completionSend_started (hapi : p.api ≠ .whole) {m : Moment} {text : Bytes} {p' : Proxy}
    (h : completionSend p m text = (p', true)) : p'.started = true := by
  have hnote : (p.noteAnswer m text).api = p.api := (adds_noteAnswer m text).api
  unfold completionSend at h
  dsimp only at h
  rw [if_neg (by rw [hnote]; exact hapi)] at h
  split at h
  · cases h
  · next p₁ heq =>
      split at h
      · cases h
      · have hp : p₁.started = p'.started :=
          congrArg (fun r : Proxy × Bool => r.1.started) h
        rw [← hp]
        exact completionHead_started heq

theorem adds_comment (hapi : p.api = .stream) (hstart : p.started = true) :
    Adds p (p.emit (lit ": preparing\n\n")).1 [] := by
  refine .emit hstart ?_
  rw [eventOf_stream hapi]
  exact comment_body

theorem adds_completionKeepalive (hapi : p.api ≠ .app) (m : Moment) :
    Adds p (completionKeepalive p m).1 [] := by
  have hsend := (gives_completionSend hapi m List.not_mem_nil).adds
  unfold completionKeepalive
  split
  · exact .refl p
  · next hwhole =>
      have hstream : p.api = .stream := by
        cases ha : p.api with
        | app => exact absurd ha hapi
        | stream => rfl
        | whole => exact absurd ha hwhole
      split
      · next hstart => exact adds_comment hstream hstart
      · split
        · next p' heq =>
            rw [heq] at hsend
            exact hsend
        · next p' heq =>
            rw [heq] at hsend
            exact hsend.quiet_trans
              (adds_comment (hsend.api.trans hstream) (completionSend_started hwhole heq))

end CompletionCallbacks

/-! ## Every callback -/

section Callbacks

variable {p : Proxy}

theorem gives_send (m : Moment) {text : Bytes} (htext : (0 : UInt8) ∉ text) :
    Gives p (p.send m text) text := by
  unfold Proxy.send
  split
  · next happ => exact gives_proxySend happ m htext
  · next happ => exact gives_completionSend happ m htext

theorem adds_keepalive (m : Moment) : Adds p (p.keepalive m).1 [] := by
  unfold Proxy.keepalive
  split
  · next happ => exact adds_proxyKeepalive happ m
  · next happ => exact adds_completionKeepalive happ m

/-- The phases of the app are quiet events. -/
theorem adds_phase (happ : p.api = .app) (phase : String)
    (hphase : Quotable (lit phase) ∧ Clean (lit phase)) {front : Bytes} (n : Nat)
    (hfront : front = lit "\x7b\"phase\":\"" ++ lit phase ++ lit "\",\"tokens\":") :
    Adds p (proxyEvent p (front ++ decimal n ++ lit "\x7d\n")).1 [] := by
  rw [hfront]
  exact adds_proxyEvent happ (phase_body hphase n)

theorem adds_announce (m : Moment) : Adds p (p.announce m).1 [] := by
  unfold Proxy.announce
  split
  · next h =>
      have hsame : Adds p { p with reading := true } [] := .same rfl
      refine hsame.quiet_trans
        (adds_phase (hsame.api.trans h.1) "prefill" (tidy_text (by decide)) _ ?_)
      decide
  · exact .refl p

theorem adds_cancel (m : Moment) : Adds p (proxyCancel p m).1 [] := by
  have hfields : Adds p { p with disconnected := m.gone, expired := m.late } [] := .same rfl
  unfold proxyCancel
  dsimp only
  split
  · exact hfields
  · have hannounce := hfields.quiet_trans (adds_announce m)
    split
    · next p' heq =>
        rw [heq] at hannounce
        exact hannounce.quiet_trans (.same rfl)
    · next p' heq =>
        rw [heq] at hannounce
        split
        · have halive := hannounce.quiet_trans (adds_keepalive m)
          split
          · next p'' heq' =>
              rw [heq'] at halive
              exact halive.quiet_trans (.same rfl)
          · next p'' heq' =>
              rw [heq'] at halive
              exact halive
        · exact hannounce

theorem gives_take (m : Moment) (thinking : Bool) {text : Bytes} (htext : (0 : UInt8) ∉ text) :
    Gives p (p.take m thinking text) (if thinking then [] else text) := by
  unfold Proxy.take
  dsimp only
  split
  · have hfields : Adds p { p with reasoning := true, thinkingNow := !p.visible } [] := .same rfl
    split
    · next h => exact (hfields.quiet_trans
        (adds_proxyThinking (hfields.api.trans h.1) text)).gives
    · exact hfields.gives
  · split
    · have hfields : Adds p { p with thinkingNow := false, visible := p.visible || hasText text } [] :=
        .same rfl
      exact .after hfields (gives_send m htext)
    · next hempty =>
        rw [not_not.mp hempty]
        exact (Adds.refl p).gives

theorem adds_prepare (m : Moment) : Adds p (p.prepare m).1 [] := by
  unfold Proxy.prepare
  split
  · exact (adds_keepalive m).trans (.same rfl)
  · exact .refl p

theorem adds_progress (m : Moment) (text : Bytes) : Adds p (p.progress m text).1 [] := by
  unfold Proxy.progress
  dsimp only
  split
  · next h =>
      have hfields : Adds p { p with thought := p.thought + 1 } [] := .same rfl
      split
      · refine hfields.quiet_trans
          (adds_phase (hfields.api.trans h.1) "preparing" (tidy_text (by decide)) _ ?_)
        decide
      · exact hfields
  · exact .refl p

/-- A part that is accepted adds just its answer text. -/
theorem gives_proxyPart (m : Moment) (thinking : Bool) {text : Bytes} (htext : (0 : UInt8) ∉ text) :
    Gives p (proxyPart p m thinking text) (if thinking then [] else text) := by
  have hcancel : Adds p (proxyCancel p m).1 [] := adds_cancel m
  unfold proxyPart
  split
  · next p₁ heq =>
      rw [heq] at hcancel
      exact hcancel.stops _
  · next p₁ heq =>
      rw [heq] at hcancel
      have hfirst : Adds p₁ (if text ≠ [] ∧ p₁.first = 0 then { p₁ with first := m.elapsed }
          else p₁) [] := by
        split
        · exact .same rfl
        · exact .refl p₁
      have htake := Gives.after (hcancel.quiet_trans hfirst) (gives_take m thinking htext)
      dsimp only
      split
      · next p₂ heq₂ =>
          rw [heq₂] at htake
          exact htake
      · next p₂ heq₂ =>
          rw [heq₂] at htake
          have hprepare : Adds p₂ (p₂.prepare m).1 [] := adds_prepare m
          split
          · next p₃ heq₃ =>
              rw [heq₃] at hprepare
              obtain ⟨s, hs, hok, hor⟩ := htake.then (r := (p₃, true)) hprepare
              exact ⟨s, hs, fun hf => (by cases hf), hor⟩
          · next p₃ heq₃ =>
              rw [heq₃] at hprepare
              exact htake.then (hprepare.quiet_trans (adds_progress m text))

theorem adds_polls (ms : List Moment) : Adds p (p.polls ms) [] := by
  induction ms generalizing p with
  | nil => exact .refl p
  | cons m ms ih =>
      have hfirst : Adds p (proxyCancel p m).1 [] := adds_cancel m
      exact hfirst.quiet_trans ih

end Callbacks

/-- The parts in a row: what is added is the answer text when every one was accepted. -/
theorem adds_parts (t : Timing) (parts : List (Bool × CStr)) (h : ∀ x ∈ parts, (0 : UInt8) ∉ x.2)
    (n : Nat) (p : Proxy) : ∃ s, Adds p (p.parts t n parts).1 s ∧
      ((∀ ok ∈ (p.parts t n parts).2, ok = true) → s = answerText parts) := by
  induction parts generalizing n p with
  | nil => exact ⟨[], .refl p, fun _ => rfl⟩
  | cons x parts ih =>
      obtain ⟨thinking, text⟩ := x
      obtain ⟨s, hs, hok, _⟩ := Gives.after (adds_polls (p := p) (t.polls n))
        (gives_proxyPart (t.part n) thinking (h _ List.mem_cons_self))
      obtain ⟨s', hs', hok'⟩ := ih (fun x hx => h x (List.mem_cons_of_mem _ hx)) (n + 1)
        (proxyPart (p.polls (t.polls n)) (t.part n) thinking text).1
      refine ⟨s ++ s', hs.trans hs', fun hall => ?_⟩
      have hfirst : s = if thinking then [] else text := hok (hall _ List.mem_cons_self)
      have hrest : s' = answerText parts := hok' fun ok hmem => hall ok (List.mem_cons_of_mem _ hmem)
      rw [hfirst, hrest]
      rfl

/-! ## The exits -/

/-- The proxy behind the daemon's answer, for a client that stays connected. -/
theorem served_sent {q : Request} (hfd : q.fd = none) {parts : List (Bool × CStr)}
    (hparts : ∀ x ∈ parts, (0 : UInt8) ∉ x.2) :
    ∃ c, Sent (q.served parts).1 c ∧ (q.served parts).1.api = q.api ∧
      (q.served parts).1.id.length ≤ 63 ∧ (q.served parts).1.model.length ≤ 159 ∧
      ((∀ ok ∈ (q.served parts).2, ok = true) → c = answerText parts) := by
  obtain ⟨s, hadds, hall⟩ := adds_parts q.timing parts hparts 0 q.proxy
  have hpolls : Adds (q.proxy.parts q.timing 0 parts).1 (q.served parts).1 [] :=
    adds_polls q.timing.after
  have hserved := hadds.trans hpolls
  rw [List.append_nil] at hserved
  have hstart : Sent q.proxy [] := by
    have hempty : q.proxy.fd = {} := congrArg (Fd.mk []) hfd
    by_cases hwhole : q.api = .whole
    · exact .whole hwhole rfl hempty fun _ => rfl
    · exact .quiet hwhole rfl hempty rfl
  refine ⟨s, hserved.sent [] hstart, hserved.api, ?_, ?_, hall⟩
  · rw [hserved.id]
    exact List.length_take_le 63 _
  · rw [hserved.model]
    exact List.length_take_le 159 _

/-- A response that has begun, behind its last event. -/
theorem begun_view {p : Proxy} {c last : Bytes} (hsent : Sent p c) (hstart : p.started = true)
    (hlast : Body (eventOf p.api) last ⟨[], 1⟩) :
    view (p.fd.send last).1.sent = some ⟨c, 1⟩ ∧ (p.fd.send last).2 = true := by
  cases hsent with
  | whole _ hs _ _ => cases hstart.symm.trans hs
  | quiet _ hs _ _ => cases hstart.symm.trans hs
  | begun ha hs body hf hb =>
      have hall : Body (eventOf p.api) (body ++ last) ⟨c, 1⟩ := by
        have h := hb.append hlast
        rw [View.append, List.append_nil] at h
        exact h
      have hsend : p.fd.send last = (⟨headOf p.api ++ (body ++ last), none⟩, true) := by
        rw [hf, send_connected, List.append_assoc]
      rw [hsend]
      refine ⟨?_, rfl⟩
      unfold headOf
      unfold eventOf at hall
      split
      · next happ =>
          rw [if_pos happ] at hall
          exact view_app hall
      · next happ =>
          rw [if_neg happ] at hall
          exact view_stream hall

theorem Sent.unsent {p : Proxy} {c : Bytes} (h : Sent p c) (hstart : p.started = false) :
    p.fd = {} := by
  cases h with
  | whole _ _ hf _ => exact hf
  | quiet _ _ hf _ => exact hf
  | begun _ hs _ _ _ => cases hs.symm.trans hstart

theorem proxyFinish_ok (p : Proxy) (rc : Nat) {error : Bytes} (herror : ErrorText error) :
    ErrorText (proxyFinish p rc error).2 ∧ ((proxyFinish p rc error).1 = 0 → rc = 0) := by
  unfold proxyFinish
  split
  · exact ⟨⟨by decide +kernel, by unfold Clean; decide +kernel⟩, fun h => (by cases h)⟩
  · exact ⟨herror, id⟩

/-- A response that ends once; with the code 0 it has the content `c`, and `rc` is 0. -/
def EndsOnce (r : Fd × Nat) (c : Bytes) (rc : Nat) : Prop :=
  ∃ v, view r.1.sent = some v ∧ v.ends = 1 ∧ (r.2 = 0 → v.content = c ∧ rc = 0)

/-- The event of an error, in `generate`. -/
def errorEvent (error : Bytes) : Buffer :=
  ({ cap := 1024 } : Buffer) |>.put (lit "\x7b\"error\":") |>.quote error |>.put (lit "\x7d\n")

theorem errorEvent_data {error : Bytes} (h : ErrorText error) :
    (errorEvent error).failed = false ∧ Body appEvent (errorEvent error).data ⟨[], 1⟩ := by
  have hlen := h.quoted
  have hwrites : Writes { cap := 1024 } (errorEvent error) _ :=
    ((writes_put { cap := 1024 } (lit "\x7b\"error\":")).trans (writes_quote _ error)).trans
      (writes_put _ (lit "\x7d\n"))
  have h1 : (lit "\x7b\"error\":").length = 9 := by decide
  have h2 : (lit "\x7d\n").length = 2 := by decide
  have hok := hwrites.fresh.2 (by
    simp only [List.length_append, List.length_cons, List.length_nil, h1, h2]
    omega)
  refine ⟨hok, ?_⟩
  rw [hwrites.fresh.1 hok]
  exact error_body error

/-- The end of `generate`; `r` is what comes of the last event. -/
theorem generate_tail (q : Request) (s : RunStats) {p : Proxy} {rc : Nat} {error c : Bytes}
    {r : Fd × Nat} (hsent : Sent p c) (happ : p.api = .app) (herror : ErrorText error)
    (hstart : rc = 0 → p.started = true)
    (hr : ∀ fd, p.fd.send ((finalEvent q p s).take 511) = (fd, true) → r = (fd, 0)) :
    EndsOnce (if p.started = false then
        (p.fd.errorResponse (if rc = 0 then 502 else rc) error, rc)
      else if rc ≠ 0 then
        (if (errorEvent error).failed = true then p.fd
          else (p.fd.send (errorEvent error).data).1, rc)
      else r) c rc := by
  split
  · next hno =>
      have hview := errorResponse_view (hsent.unsent hno) (if rc = 0 then 502 else rc) herror
      refine ⟨_, hview, rfl, fun hrc => ?_⟩
      cases hno.symm.trans (hstart hrc)
  · next hyes =>
      have hbegun : p.started = true := by simpa using hyes
      split
      · next hrc =>
          obtain ⟨hok, hbody⟩ := errorEvent_data herror
          rw [hok, if_neg Bool.false_ne_true]
          have hlast : Body (eventOf p.api) (errorEvent error).data ⟨[], 1⟩ := by
            rw [eventOf_app happ]
            exact hbody
          have hview := (begun_view hsent hbegun hlast).1
          exact ⟨_, hview, rfl, fun h => absurd h hrc⟩
      · next hrc =>
          have hlast : Body (eventOf p.api) ((finalEvent q p s).take 511) ⟨[], 1⟩ := by
            rw [eventOf_app happ]
            exact final_body q p s
          obtain ⟨hview, hsend⟩ := begun_view hsent hbegun hlast
          rw [hr (p.fd.send ((finalEvent q p s).take 511)).1 (Prod.ext rfl hsend)]
          exact ⟨_, hview, rfl, fun _ => ⟨rfl, not_not.mp hrc⟩⟩

theorem generate_ends {q : Request} {out : Outcome} (hfd : q.fd = none)
    (hparts : ∀ x ∈ out.parts, (0 : UInt8) ∉ x.2) (herror : ErrorText out.error)
    (happ : q.api = .app) : ∃ c rc, EndsOnce (generate q out) c rc ∧ (rc = 0 → out.rc = 0) ∧
      ((∀ ok ∈ (q.served out.parts).2, ok = true) → c = answerText out.parts) := by
  obtain ⟨c, hsent, hapi, _, _, hall⟩ := served_sent hfd hparts
  obtain ⟨hfinish, hrc⟩ := proxyFinish_ok (q.served out.parts).1 out.rc herror
  have hpapp := hapi.trans happ
  unfold generate
  dsimp only
  generalize (q.served out.parts).1 = p at hsent hfinish hrc hpapp ⊢
  generalize proxyFinish p out.rc out.error = r at hfinish hrc ⊢
  obtain ⟨rc, error⟩ := r
  dsimp only at hfinish hrc ⊢
  by_cases hopen : rc = 0 ∧ p.started = false
  · rw [if_pos hopen]
    have hsend := (gives_proxySend hpapp q.timing.last List.not_mem_nil).adds
    rcases hr : proxySend p q.timing.last [] with ⟨p', ok⟩
    rw [hr] at hsend
    have hs := hsend.sent c hsent
    rw [List.append_nil] at hs
    have happ' : p'.api = .app := hsend.api.trans hpapp
    cases ok with
    | false =>
        refine ⟨c, 502, generate_tail q out.stats hs happ' hfinish ?_ ?_, ?_, hall⟩
        · intro h
          cases h
        · intro fd h
          rw [h]
        · intro h
          cases h
    | true =>
        refine ⟨c, 0, generate_tail q out.stats hs happ' hfinish ?_ ?_, fun _ => hrc hopen.1, hall⟩
        · exact fun _ => proxySend_started hr
        · intro fd h
          rw [h]
  · rw [if_neg hopen]
    refine ⟨c, rc, generate_tail q out.stats hsent hpapp hfinish (fun h => ?_) ?_, hrc, hall⟩
    · by_contra hno
      exact hopen ⟨h, by simpa using hno⟩
    · intro fd h
      rw [h]

/-! ## The end of a completion -/

/-- The chunk of an error, in `completions`. -/
def errorChunk (error : Bytes) : Buffer :=
  ({ cap := 65536 } : Buffer) |>.put (lit "data: \x7b\"error\":\x7b\"message\":") |>.quote error
    |>.put (lit "\x7d\x7d\n\n")

theorem errorChunk_data {error : Bytes} (h : ErrorText error) :
    Body streamEvent (errorChunk error).data ⟨[], 1⟩ := by
  have hlen := h.quoted
  have hwrites : Writes { cap := 65536 } (errorChunk error) _ :=
    ((writes_put { cap := 65536 } (lit "data: \x7b\"error\":\x7b\"message\":")).trans
      (writes_quote _ error)).trans (writes_put _ (lit "\x7d\x7d\n\n"))
  have h1 : (lit "data: \x7b\"error\":\x7b\"message\":").length = 26 := by decide
  have h2 : (lit "\x7d\x7d\n\n").length = 4 := by decide
  have hok := hwrites.fresh.2 (by
    simp only [List.length_append, List.length_cons, List.length_nil, h1, h2]
    omega)
  exact errorChunk_body (hwrites.fresh.1 hok)

theorem streamEnd_data {q : Request} {s : RunStats} {p : Proxy} (hid : p.id.length ≤ 63)
    (hmodel : p.model.length ≤ 159) :
    (streamEnd q p s).failed = false ∧ Body streamEvent (streamEnd q p s).data ⟨[], 1⟩ := by
  have hlen := endText_length q p s
  obtain ⟨hdata, hfits⟩ := (streamEnd_writes q p s).fresh
  have hok : (streamEnd q p s).failed = false := hfits (by omega)
  refine ⟨hok, ?_⟩
  rw [hdata hok]
  exact endText_body q p s

/-- The end of `completions`; `r` and `r'` are what comes of the end of a stream and of a body. -/
theorem completions_tail (q : Request) (s : RunStats) {p : Proxy} {rc : Nat} {error c : Bytes}
    {r r' : Fd × Nat} (hsent : Sent p c) (hapi : p.api ≠ .app) (hq : q.api = p.api)
    (herror : ErrorText error) (hid : p.id.length ≤ 63) (hmodel : p.model.length ≤ 159)
    (hstart : rc = 0 → q.api = .stream → p.started = true)
    (htext : rc = 0 → p.api = .whole → p.text.failed = false) (hzero : rc = 0 → (0 : UInt8) ∉ c)
    (hr : ∀ fd, p.fd.send (streamEnd q p s).data = (fd, true) → r = (fd, 0))
    (hr' : ∀ fd, p.fd.response 200 (lit "application/json") (wholeBody q p s).data = (fd, true) →
      r' = (fd, 0)) :
    EndsOnce (if rc ≠ 0 then
        if p.started = false then (p.fd.apiError rc error, rc)
        else ((p.fd.send (errorChunk error).data).1, rc)
      else if q.api = .stream then if (streamEnd q p s).failed = true then (p.fd, 502) else r
      else if (wholeBody q p s).failed = true then
        (p.fd.apiError 502 (lit "Completion exceeds response capacity."), 502)
      else r') c rc := by
  split
  · next hrc =>
      split
      · next hno =>
          have hview := apiError_view (hsent.unsent hno) rc herror
          exact ⟨_, hview, rfl, fun h => absurd h hrc⟩
      · next hyes =>
          have hbegun : p.started = true := by simpa using hyes
          have hlast : Body (eventOf p.api) (errorChunk error).data ⟨[], 1⟩ := by
            rw [eventOf, if_neg hapi]
            exact errorChunk_data herror
          have hview := (begun_view hsent hbegun hlast).1
          exact ⟨_, hview, rfl, fun h => absurd h hrc⟩
  · next hrc =>
      have hrc0 : rc = 0 := not_not.mp hrc
      split
      · next hstream =>
          obtain ⟨hok, hbody⟩ := streamEnd_data (q := q) (s := s) hid hmodel
          rw [hok, if_neg Bool.false_ne_true]
          have hlast : Body (eventOf p.api) (streamEnd q p s).data ⟨[], 1⟩ := by
            rw [eventOf, if_neg hapi]
            exact hbody
          obtain ⟨hview, hsend⟩ := begun_view hsent (hstart hrc0 hstream) hlast
          rw [hr (p.fd.send (streamEnd q p s).data).1 (Prod.ext rfl hsend)]
          exact ⟨_, hview, rfl, fun _ => ⟨rfl, hrc0⟩⟩
      · next hstream =>
          have hwhole : p.api = .whole := by
            rw [hq] at hstream
            cases ha : p.api with
            | app => exact absurd ha hapi
            | stream => exact absurd ha hstream
            | whole => rfl
          cases hsent with
          | quiet ha _ _ _ => exact absurd hwhole ha
          | begun ha _ _ _ _ => exact absurd hwhole ha
          | whole _ hno hf ht =>
              have hdata : p.text.data = c := ht (htext hrc0 hwhole)
              split
              · have hcapacity : ErrorText (lit "Completion exceeds response capacity.") :=
                  ⟨by decide +kernel, by unfold Clean; decide +kernel⟩
                have hview := apiError_view hf 502 hcapacity
                refine ⟨_, hview, rfl, fun h => ?_⟩
                cases h
              · next hok =>
                  obtain ⟨hview, hsend⟩ := response_view hf 200 (wholeBody q p s).data
                  rw [whole_event q p s (hdata ▸ hzero hrc0) (Bool.eq_false_iff.mpr hok)] at hview
                  rw [hr' (p.fd.response 200 (lit "application/json") (wholeBody q p s).data).1
                    (Prod.ext rfl hsend)]
                  exact ⟨_, hview, rfl, fun _ => ⟨hdata, hrc0⟩⟩

theorem answerText_zero {parts : List (Bool × CStr)} (h : ∀ x ∈ parts, (0 : UInt8) ∉ x.2) :
    (0 : UInt8) ∉ answerText parts := by
  intro hzero
  obtain ⟨x, hx, hmem⟩ := List.mem_flatMap.mp hzero
  split at hmem
  · cases hmem
  · exact h x hx hmem

theorem completionCode_ok {p : Proxy} {out : Outcome} (herror : ErrorText out.error) :
    ErrorText (completionCode p out).2 ∧
      ((completionCode p out).1 = 0 → out.rc = 0 ∧ p.text.failed = false) := by
  have hsize : ErrorText (lit "The model produced invalid or oversized text.") :=
    ⟨by decide +kernel, by unfold Clean; decide +kernel⟩
  have hnone : ErrorText
      (lit "The model produced no answer. Try again or allow more output tokens.") :=
    ⟨by decide +kernel, by unfold Clean; decide +kernel⟩
  unfold completionCode
  by_cases hfailed : p.text.failed = true
  · rw [if_pos hfailed]
    dsimp only
    rw [if_neg fun h => (by cases h.1)]
    exact ⟨hsize, fun h => (by cases h)⟩
  · rw [if_neg hfailed]
    dsimp only
    split
    · exact ⟨hnone, fun h => (by cases h)⟩
    · exact ⟨herror, fun h => ⟨h, Bool.eq_false_iff.mpr hfailed⟩⟩

theorem completions_ends {q : Request} {out : Outcome} (hfd : q.fd = none)
    (hparts : ∀ x ∈ out.parts, (0 : UInt8) ∉ x.2) (herror : ErrorText out.error)
    (hends : out.rc = 0 → ∀ ok ∈ (q.served out.parts).2, ok = true) (hne : q.api ≠ .app) :
    ∃ c rc, EndsOnce (completions q out) c rc ∧ (rc = 0 → out.rc = 0) ∧
      ((∀ ok ∈ (q.served out.parts).2, ok = true) → c = answerText out.parts) := by
  obtain ⟨c, hsent, hapi, hid, hmodel, hall⟩ := served_sent hfd hparts
  obtain ⟨hcode, hzero⟩ := completionCode_ok (p := (q.served out.parts).1) herror
  have hclean : out.rc = 0 → (0 : UInt8) ∉ c := by
    intro h
    rw [hall (hends h)]
    exact answerText_zero hparts
  obtain ⟨hfinish, hrc⟩ := proxyFinish_ok (q.served out.parts).1
    (completionCode (q.served out.parts).1 out).1 hcode
  unfold completions
  dsimp only
  generalize (q.served out.parts).1 = p at hsent hfinish hrc hapi hid hmodel hzero ⊢
  generalize completionCode p out = code at hzero hfinish hrc ⊢
  obtain ⟨rc₀, error₀⟩ := code
  dsimp only at hzero hfinish hrc ⊢
  generalize proxyFinish p rc₀ error₀ = r at hfinish hrc ⊢
  obtain ⟨rc, error⟩ := r
  dsimp only at hfinish hrc ⊢
  have hpne : p.api ≠ .app := by rw [hapi]; exact hne
  have hout : rc = 0 → out.rc = 0 := fun h => (hzero (hrc h)).1
  by_cases hopen : rc = 0 ∧ q.api = .stream ∧ p.started = false
  · rw [if_pos hopen]
    have hstream : p.api = .stream := hapi.trans hopen.2.1
    have hnotWhole : p.api ≠ .whole := by rw [hstream]; decide
    have hsend := (gives_completionSend hpne q.timing.last List.not_mem_nil).adds
    rcases hr : completionSend p q.timing.last [] with ⟨p', ok⟩
    rw [hr] at hsend
    have hs := hsend.sent c hsent
    rw [List.append_nil] at hs
    have hstream' : p'.api = .stream := hsend.api.trans hstream
    have hne' : p'.api ≠ .app := by rw [hstream']; decide
    have hq : q.api = p'.api := hopen.2.1.trans hstream'.symm
    have hid' : p'.id.length ≤ 63 := (congrArg List.length hsend.id).trans_le hid
    have hmodel' : p'.model.length ≤ 159 := (congrArg List.length hsend.model).trans_le hmodel
    have hnever (rc' : Nat) : rc' = 0 → p'.api = .whole → p'.text.failed = false := by
      intro _ h
      cases hstream'.symm.trans h
    cases ok with
    | false =>
        refine ⟨c, 502, completions_tail q out.stats hs hne' hq hfinish hid' hmodel' ?_ (hnever 502)
          ?_ ?_ ?_, ?_, hall⟩
        · intro h
          cases h
        · intro h
          cases h
        · intro fd h
          rw [h]
        · intro fd h
          rw [h]
        · intro h
          cases h
    | true =>
        refine ⟨c, 0, completions_tail q out.stats hs hne' hq hfinish hid' hmodel' ?_ (hnever 0)
          ?_ ?_ ?_, fun _ => hout hopen.1, hall⟩
        · exact fun _ _ => completionSend_started hnotWhole hr
        · exact fun _ => hclean (hout hopen.1)
        · intro fd h
          rw [h]
        · intro fd h
          rw [h]
  · rw [if_neg hopen]
    refine ⟨c, rc, completions_tail q out.stats hsent hpne hapi.symm hfinish hid hmodel ?_ ?_ ?_ ?_
      ?_, hout, hall⟩
    · intro h hstream
      by_contra hno
      exact hopen ⟨h, hstream, by simpa using hno⟩
    · exact fun h _ => (hzero (hrc h)).2
    · exact fun h => hclean (hout h)
    · intro fd h
      rw [h]
    · intro fd h
      rw [h]

/-! ## All answers -/

theorem refusal_text : ∀ r ∈ generateRefusals ++ completionRefusals,
    r.code ≠ 0 ∧ r.message.length ≤ 255 ∧ ∀ c ∈ r.message, 32 ≤ c := by decide +kernel

theorem streamed_known : ∀ r ∈ (none : Option Refusal),
    r ∈ if Api.stream = .app then generateRefusals else completionRefusals :=
  fun _ h => absurd h (Option.not_mem_none _)

/-- A streamed request, and an answer in two pieces behind a thought. -/
def streamed : Request where
  api := .stream
  fd := none
  refused := none
  known := streamed_known
  model := lit "m"
  pid := 1
  sequence := 1
  includeUsage := true
  timing := {}
  generationNs := 1
  totalNs := 2

def twoPieces : Outcome where
  rc := 0
  error := []
  did := []
  parts := [(true, lit "hm"), (false, lit "Hel"), (false, lit "lo")]
  stats := {}
  base := none

/-- The result of a callback, but for when the first text came. -/
def veiled (n : Nat) (r : Proxy × Bool) : Proxy × Bool := ({ r.1 with first := n }, r.2)

section Veiled

variable {p : Proxy}

theorem completionHead_veiled (n : Nat) :
    completionHead { p with first := n } = veiled n (completionHead p) := by
  have hemit : Proxy.emit { p with first := n } sseHead = veiled n (p.emit sseHead) := rfl
  unfold completionHead
  rw [hemit]
  by_cases hstart : p.started = true
  · rw [if_pos hstart, if_pos hstart]
    rfl
  · rw [if_neg hstart, if_neg hstart]
    rcases p.emit sseHead with ⟨p', ok⟩
    cases ok
    · rfl
    · rfl

theorem completionSend_veiled (n : Nat) (m : Moment) (text : Bytes) :
    completionSend { p with first := n } m text = veiled n (completionSend p m text) := by
  have hnote : Proxy.noteAnswer { p with first := n } m text =
      { p.noteAnswer m text with first := n } := by
    unfold Proxy.noteAnswer
    dsimp only
    split
    · rfl
    · rfl
  unfold completionSend
  dsimp only
  rw [hnote, completionHead_veiled]
  by_cases hwhole : (p.noteAnswer m text).api = .whole
  · rw [if_pos hwhole, if_pos hwhole]
    rfl
  · rw [if_neg hwhole, if_neg hwhole]
    rcases completionHead (p.noteAnswer m text) with ⟨p', ok⟩
    cases ok with
    | false => rfl
    | true =>
        have hopening : completionPrefix (({ cap := 16384 } : Buffer).put (lit "data: "))
            { p' with first := n } true m.date =
              completionPrefix (({ cap := 16384 } : Buffer).put (lit "data: ")) p' true m.date := rfl
        show (if _ then _ else _) = veiled n (if _ then _ else _)
        rw [hopening]
        split
        · rfl
        · rfl

theorem keepalive_veiled (hapi : p.api ≠ .app) (n : Nat) (m : Moment) :
    Proxy.keepalive { p with first := n } m = veiled n (p.keepalive m) := by
  unfold Proxy.keepalive
  dsimp only
  rw [if_neg hapi, if_neg hapi]
  unfold completionKeepalive
  dsimp only
  rw [completionSend_veiled]
  by_cases hwhole : p.api = .whole
  · rw [if_pos hwhole, if_pos hwhole]
    rfl
  · rw [if_neg hwhole, if_neg hwhole]
    by_cases hstart : p.started = true
    · rw [if_pos hstart, if_pos hstart]
      rfl
    · rw [if_neg hstart, if_neg hstart]
      rcases completionSend p m [] with ⟨p', ok⟩
      cases ok
      · rfl
      · rfl

theorem announce_quiet (hapi : p.api ≠ .app) (m : Moment) : p.announce m = (p, true) := by
  unfold Proxy.announce
  exact if_neg fun h => hapi h.1

theorem progress_quiet (hapi : p.api ≠ .app) (m : Moment) (text : Bytes) :
    p.progress m text = (p, true) := by
  unfold Proxy.progress
  exact if_neg fun h => hapi h.1

theorem proxyCancel_veiled (hapi : p.api ≠ .app) (n : Nat) (m : Moment) :
    proxyCancel { p with first := n } m = veiled n (proxyCancel p m) := by
  unfold proxyCancel
  dsimp only
  rw [announce_quiet (p := { p with first := n, disconnected := m.gone, expired := m.late }) hapi,
    announce_quiet (p := { p with disconnected := m.gone, expired := m.late }) hapi]
  dsimp only
  split
  · rfl
  · split
    · have halive := keepalive_veiled (p := { p with disconnected := m.gone, expired := m.late })
        hapi n m
      dsimp only at halive
      rw [halive]
      rcases Proxy.keepalive { p with disconnected := m.gone, expired := m.late } m with ⟨p', ok⟩
      cases ok
      · rfl
      · rfl
    · rfl

theorem take_veiled (hapi : p.api ≠ .app) (n : Nat) (m : Moment) (thinking : Bool)
    {text text' : Bytes} (h : thinking = false → text' = text) :
    Proxy.take { p with first := n } m thinking text' = veiled n (p.take m thinking text) := by
  unfold Proxy.take
  dsimp only
  cases thinking with
  | true =>
      rw [if_pos rfl, if_pos rfl, if_neg fun h => hapi h.1, if_neg fun h => hapi h.1]
      rfl
  | false =>
      rw [h rfl, if_neg Bool.false_ne_true, if_neg Bool.false_ne_true]
      split
      · unfold Proxy.send
        dsimp only
        rw [if_neg hapi, if_neg hapi]
        exact completionSend_veiled
          (p := { p with thinkingNow := false, visible := p.visible || hasText text }) n m text
      · rfl

theorem prepare_veiled (hapi : p.api ≠ .app) (n : Nat) (m : Moment) :
    Proxy.prepare { p with first := n } m = veiled n (p.prepare m) := by
  unfold Proxy.prepare
  dsimp only
  rw [keepalive_veiled hapi]
  split
  · rfl
  · rfl

/-- A part tells the client nothing of what was thought. -/
theorem proxyPart_veiled (hapi : p.api ≠ .app) (n : Nat) (m : Moment) (thinking : Bool)
    {text text' : Bytes} (htext : (0 : UInt8) ∉ text) (h : thinking = false → text' = text) :
    ∃ k, proxyPart { p with first := n } m thinking text' =
      veiled k (proxyPart p m thinking text) := by
  have hcancel : (proxyCancel p m).1.api = p.api := (adds_cancel m).api
  unfold proxyPart
  rw [proxyCancel_veiled hapi]
  rcases hstop : proxyCancel p m with ⟨p₁, stop⟩
  rw [hstop] at hcancel
  cases stop with
  | true => exact ⟨n, rfl⟩
  | false =>
      have hapi₁ : p₁.api ≠ .app := by
        rw [show p₁.api = p.api from hcancel]
        exact hapi
      obtain ⟨k, hk⟩ : ∃ k, (if text' ≠ [] ∧ n = 0 then { p₁ with first := m.elapsed }
          else { p₁ with first := n }) = { p₁ with first := k } := by
        split
        · exact ⟨m.elapsed, rfl⟩
        · exact ⟨n, rfl⟩
      obtain ⟨p₂, hp₂, hsame, hapi₂⟩ : ∃ p₂ : Proxy,
          (if text ≠ [] ∧ p₁.first = 0 then { p₁ with first := m.elapsed } else p₁) = p₂ ∧
            { p₁ with first := k } = { p₂ with first := k } ∧ p₂.api ≠ .app := by
        split
        · exact ⟨_, rfl, rfl, hapi₁⟩
        · exact ⟨_, rfl, rfl, hapi₁⟩
      refine ⟨k, ?_⟩
      dsimp only [veiled]
      rw [hk, hp₂, hsame, take_veiled hapi₂ k m thinking h]
      obtain ⟨s, htake, _⟩ := gives_take (p := p₂) m thinking htext
      rcases hok : p₂.take m thinking text with ⟨p₃, ok⟩
      rw [hok] at htake
      have hapi₃ : p₃.api ≠ .app := by
        rw [show p₃.api = p₂.api from htake.api]
        exact hapi₂
      cases ok with
      | false => rfl
      | true =>
          dsimp only [veiled]
          rw [prepare_veiled hapi₃]
          have hprepare := (adds_prepare (p := p₃) m).api
          rcases hok' : p₃.prepare m with ⟨p₄, ok'⟩
          rw [hok'] at hprepare
          have hapi₄ : p₄.api ≠ .app := by
            rw [show p₄.api = p₃.api from hprepare]
            exact hapi₃
          cases ok' with
          | false => rfl
          | true =>
              dsimp only [veiled]
              rw [progress_quiet hapi₄, progress_quiet (p := { p₄ with first := k }) hapi₄]

theorem polls_veiled (hapi : p.api ≠ .app) (n : Nat) (ms : List Moment) :
    Proxy.polls { p with first := n } ms = { p.polls ms with first := n } := by
  induction ms generalizing p with
  | nil => rfl
  | cons m ms ih =>
      have hnext : (proxyCancel p m).1.api ≠ .app := by
        rw [(adds_cancel m).api]
        exact hapi
      show Proxy.polls (proxyCancel { p with first := n } m).1 ms =
        { (proxyCancel p m).1.polls ms with first := n }
      rw [proxyCancel_veiled hapi]
      exact ih hnext

end Veiled

/-- Parts that differ only in what was thought. -/
def SameAnswer (parts parts' : List (Bool × CStr)) : Prop :=
  List.Forall₂ (fun x y => y.1 = x.1 ∧ (x.1 = false → y.2 = x.2)) parts parts'

theorem parts_veiled (t : Timing) {parts parts' : List (Bool × CStr)}
    (h : SameAnswer parts parts') (hparts : ∀ x ∈ parts, (0 : UInt8) ∉ x.2) (i n : Nat)
    (p : Proxy) (hapi : p.api ≠ .app) : ∃ k, (Proxy.parts t i { p with first := n } parts').1 =
      { (Proxy.parts t i p parts).1 with first := k } := by
  induction h generalizing i n p with
  | nil => exact ⟨n, rfl⟩
  | @cons x y parts parts' hxy _ ih =>
      obtain ⟨thinking, text⟩ := x
      obtain ⟨thinking', text'⟩ := y
      obtain ⟨hflag, htext⟩ := hxy
      dsimp only at hflag htext
      subst hflag
      have hzero : (0 : UInt8) ∉ text := hparts _ List.mem_cons_self
      have hpolls : (p.polls (t.polls i)).api ≠ .app := by
        rw [(adds_polls (t.polls i)).api]
        exact hapi
      obtain ⟨k, hk⟩ := proxyPart_veiled hpolls n (t.part i) thinking' hzero htext
      obtain ⟨s, hadds, _⟩ := gives_proxyPart (p := p.polls (t.polls i)) (t.part i) thinking' hzero
      have hnext : (proxyPart (p.polls (t.polls i)) (t.part i) thinking' text).1.api ≠ .app := by
        rw [hadds.api]
        exact hpolls
      obtain ⟨k', hk'⟩ := ih (fun x hx => hparts x (List.mem_cons_of_mem _ hx)) (i + 1) k _ hnext
      refine ⟨k', ?_⟩
      show (Proxy.parts t (i + 1) (proxyPart (Proxy.polls { p with first := n } (t.polls i))
        (t.part i) thinking' text').1 parts').1 = _
      rw [polls_veiled hapi, hk]
      exact hk'

/-- A completion tells nothing of what was thought: the response is the same whatever the texts of
the thinking parts are. -/
theorem thinking_unseen (q : Request) (out : Outcome) (parts' : List (Bool × CStr))
    (hapi : q.api ≠ .app) (hparts : ∀ x ∈ out.parts, (0 : UInt8) ∉ x.2)
    (h : SameAnswer out.parts parts') :
    respond q { out with parts := parts' } = respond q out := by
  obtain ⟨k, hk⟩ := parts_veiled q.timing h hparts 0 0 q.proxy hapi
  have hstart : ({ q.proxy with first := 0 } : Proxy) = q.proxy := rfl
  rw [hstart] at hk
  have hlast : (Proxy.parts q.timing 0 q.proxy out.parts).1.api ≠ .app := by
    obtain ⟨s, hs, _⟩ := adds_parts q.timing out.parts hparts 0 q.proxy
    rw [hs.api]
    exact hapi
  have hserved : (q.served parts').1 = { (q.served out.parts).1 with first := k } := by
    show Proxy.polls (Proxy.parts q.timing 0 q.proxy parts').1 q.timing.after = _
    rw [hk, polls_veiled hlast]
    rfl
  have hcompletions : completions q { out with parts := parts' } = completions q out := by
    unfold completions
    dsimp only
    rw [hserved]
    generalize (q.served out.parts).1 = p
    have hcode : completionCode { p with first := k } { out with parts := parts' } =
        completionCode p out := rfl
    rw [hcode]
    rcases completionCode p out with ⟨rc, error⟩
    dsimp only
    have hfinish : proxyFinish { p with first := k } rc error = proxyFinish p rc error := rfl
    rw [hfinish]
    rcases proxyFinish p rc error with ⟨rc', error'⟩
    dsimp only
    by_cases hopen : rc' = 0 ∧ q.api = .stream ∧ p.started = false
    · rw [if_pos hopen, if_pos hopen, completionSend_veiled]
      rcases completionSend p q.timing.last [] with ⟨p', ok⟩
      cases ok
      · rfl
      · rfl
    · rw [if_neg hopen, if_neg hopen]
      rfl
  unfold respond
  cases href : q.refused with
  | some r =>
      cases q.api with
      | app | stream | whole => rfl
  | none =>
      cases ha : q.api with
      | app => exact absurd ha hapi
      | stream | whole => exact hcompletions

theorem thinking_unseen_streamed :
    respond streamed { twoPieces with parts := [(true, lit "well"), (false, lit "Hel"),
      (false, lit "lo")] } = respond streamed twoPieces := by
  refine thinking_unseen streamed twoPieces _ (by decide) (by decide) ?_
  exact .cons ⟨rfl, fun h => (by cases h)⟩
    (.cons ⟨rfl, fun _ => rfl⟩ (.cons ⟨rfl, fun _ => rfl⟩ .nil))

end GeistServe.Proofs
