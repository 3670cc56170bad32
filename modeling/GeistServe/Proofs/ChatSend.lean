import GeistServe.App.Held

/-!
# One `chat_send`, from both ends

The daemon writes parts and then one last frame, and the client reads as many of
them as it gets. `SentOk` is what the frames say about the chat behind them:
parts that end in a `finished` frame are the answer the chat now holds, and a
refusal for the context left the chat as it was. `readAnswer_sent` carries that
over to what the client made of the frames it read.
-/

namespace GeistServe.Proofs

open GeistServe.Geistd GeistServe.App

variable {P : Platform} {R : Runtime}

/-- Part frames. -/
def partFrames (ps : List (Bool × CStr)) : List Reply := ps.map fun p => .part p.1 p.2

theorem reply_cases (c : Conn) (r : Reply) :
    ((reply c r).2 = false ∧ (reply c r).1.sent = c.sent ∨
      (reply c r).2 = true ∧ (reply c r).1.sent = c.sent ++ [r]) ∧
      (reply c r).1.asked = c.asked := by
  unfold reply
  split
  · exact ⟨.inl ⟨rfl, rfl⟩, rfl⟩
  · split
    · exact ⟨.inl ⟨rfl, rfl⟩, rfl⟩
    · exact ⟨.inr ⟨rfl, rfl⟩, rfl⟩
    · exact ⟨.inr ⟨rfl, rfl⟩, rfl⟩

/-! ## The fuel of the loops -/

/-- With more fuel than pieces to come, the fuel is not what ends the drain. -/
theorem drain_fuel [LawfulRuntime R] : ∀ {n m : Nat} {x : R.Chat}, R.left x < n →
    R.left x < m → drain n x = drain m x := by
  intro n
  induction n with
  | zero => exact fun h => absurd h (Nat.not_lt_zero _)
  | succ n ih =>
      intro m x hn hm
      cases m with
      | zero => exact absurd hm (Nat.not_lt_zero _)
      | succ m =>
          rw [drain, drain]
          split
          · next th t y hnext =>
              obtain ⟨_, _, hleft, _⟩ := LawfulRuntime.next_piece x th t y hnext
              exact ih (by omega) (by omega)
          · rfl

/-- Nor does it end the stream. -/
theorem streamParts_fuel [LawfulRuntime R] : ∀ {n m : Nat} {x : R.Chat} {c : Conn},
    R.left x < n → R.left x < m → streamParts n x c = streamParts m x c := by
  intro n
  induction n with
  | zero => exact fun h => absurd h (Nat.not_lt_zero _)
  | succ n ih =>
      intro m x c hn hm
      cases m with
      | zero => exact absurd hm (Nat.not_lt_zero _)
      | succ m =>
          rw [streamParts, streamParts]
          split
          · next th t y hnext =>
              obtain ⟨_, _, hleft, _⟩ := LawfulRuntime.next_piece x th t y hnext
              split
              · rfl
              · exact ih (by omega) (by omega)
          · rfl
          · rfl

/-! ## The stream -/

/-- How a stream of parts ends, and what that says about the chat it leaves. -/
inductive StreamEnd (x x' : R.Chat) (ps : List (Bool × CStr)) : Option Reply → Prop where
  | cut : StreamEnd x x' ps none
  | failed {why : CStr} (h : strstr why (lit "unknown chat") = false) :
      StreamEnd x x' ps (some (.failed (lit "error") why))
  | finished {st : ChatStats} {n : Nat}
      (hconv : R.conv x' = R.conv x ++ [⟨.assistant, R.said x ++ answerText ps⟩])
      (hdrops : R.drops x' = R.drops x) : StreamEnd x x' ps (some (.finished st n))

theorem StreamEnd.cons [LawfulRuntime R] {x y z : R.Chat} {th : Bool} {t : CStr}
    {ps : List (Bool × CStr)} {o : Option Reply} (hnext : R.next x = (.piece th t, y))
    (h : StreamEnd y z ps o) : StreamEnd x z ((th, t) :: ps) o := by
  obtain ⟨hconv, hsaid, _, hdrops⟩ := LawfulRuntime.next_piece x th t y hnext
  cases h with
  | cut => exact .cut
  | failed h => exact .failed h
  | finished hc hd =>
      refine .finished ?_ (hd.trans hdrops)
      rw [hc, hconv, hsaid, answerText, answerText, List.flatMap_cons]
      cases th <;> simp

/-- The frames of the part loop. -/
theorem streamParts_frames [LawfulRuntime R] : ∀ {fuel : Nat} {x x' : R.Chat} {c c' : Conn}
    {ok : Bool}, streamParts fuel x c = (x', c', ok) →
      c'.asked = c.asked ∧ ∃ ps o, c'.sent = c.sent ++ partFrames ps ++ o.toList ∧
        StreamEnd x x' ps o := by
  intro fuel
  induction fuel with
  | zero =>
      intro x x' c c' ok h
      cases h
      exact ⟨rfl, [], none, by simp [partFrames], .cut⟩
  | succ fuel ih =>
      intro x x' c c' ok h
      rw [streamParts] at h
      split at h
      · next th t y hnext =>
          obtain ⟨hsent, hasked⟩ := reply_cases c (.part th t)
          split at h
          · next c₁ hr =>
              cases h
              rw [hr] at hsent hasked
              rcases hsent with ⟨_, hs⟩ | ⟨hb, _⟩
              · exact ⟨hasked, [], none, by simpa [partFrames] using hs, .cut⟩
              · cases hb
          · next c₁ hr =>
              rw [hr] at hsent hasked
              rcases hsent with ⟨hb, _⟩ | ⟨_, hs⟩
              · cases hb
              · obtain ⟨hasked', ps, o, hsent', hend⟩ := ih h
                refine ⟨hasked'.trans hasked, (th, t) :: ps, o, ?_, hend.cons hnext⟩
                rw [hsent', hs]
                simp [partFrames]
      · next y hnext =>
          obtain ⟨hsent, hasked⟩ := reply_cases c (.failed (lit "error") (R.errorText y))
          simp only [Prod.mk.injEq] at h
          obtain ⟨hy, rfl, _⟩ := h
          refine ⟨hasked, ?_⟩
          rcases hsent with ⟨_, hs⟩ | ⟨_, hs⟩
          · exact ⟨[], none, by simpa [partFrames] using hs, .cut⟩
          · exact ⟨[], some _, by simpa [partFrames] using hs,
              .failed (LawfulRuntime.error_text y)⟩
      · next r y hpiece hfailed hnext =>
          obtain ⟨hsent, hasked⟩ := reply_cases c (.finished (R.stats y) (R.length y))
          simp only [Prod.mk.injEq] at h
          obtain ⟨rfl, rfl, _⟩ := h
          have hr : r = .fin ∨ r = .cancelled := by
            cases r with
            | piece th t => exact (hpiece th t rfl).elim
            | fin => exact .inl rfl
            | cancelled => exact .inr rfl
            | failed => exact (hfailed rfl).elim
          obtain ⟨hconv, hdrops⟩ := LawfulRuntime.next_end x r _ hnext hr
          refine ⟨hasked, ?_⟩
          rcases hsent with ⟨_, hs⟩ | ⟨_, hs⟩
          · exact ⟨[], none, by simpa [partFrames] using hs, .cut⟩
          · refine ⟨[], some _, by simpa [partFrames] using hs, .finished ?_ hdrops⟩
            rw [hconv, answerText, List.flatMap_nil, List.append_nil]

/-! ## The op -/

/-- What the frames of a send say: nothing of them got through, one refusal did,
or parts with or without an end. `ms` are the messages sent. -/
inductive SentOk (ms : List Msg) (x x' : R.Chat) : List Reply → List (List Turn) → Prop where
  | cut {asked : List (List Turn)}
      (hasked : ∀ ts ∈ asked, ts = R.conv x ++ ms.map Msg.turn) : SentOk ms x x' [] asked
  | refused {status why : CStr} (hwhy : strstr why (lit "unknown chat") = false)
      (hkept : status = lit "context" → R.conv x' = R.conv x ∧ R.drops x' = false) :
      SentOk ms x x' [.failed status why] []
  | error {why : CStr} (hwhy : strstr why (lit "unknown chat") = false) :
      SentOk ms x x' [.error why] []
  | stream {y : R.Chat} {ps : List (Bool × CStr)} {o : Option Reply}
      (hconv : R.conv y = R.conv x ++ ms.map Msg.turn) (hsaid : R.said y = [])
      (hdrops : R.drops y = false) (hend : StreamEnd y x' ps o) :
      SentOk ms x x' (partFrames ps ++ o.toList) [R.conv x ++ ms.map Msg.turn]

theorem bodyMessages_send (ms : List Msg) (hne : ms ≠ []) (id : CStr) (max : Nat) :
    bodyMessages (sendFrame id max ms).body = some (ms.map some) := by
  have hget : jsonGet [(lit "messages", JVal.arr (ms.map msgJson))] "messages" =
      some (.arr (ms.map msgJson)) := by
    simp [jsonGet]
  unfold bodyMessages sendFrame
  simp only [Option.bind_some, hget]
  rw [if_neg (by simpa using hne), List.map_map]
  exact congrArg some (List.map_congr_left fun m _ => rfl)

theorem mapM_some {α : Type} (xs : List α) : (xs.map some).mapM id = some xs := by
  induction xs with
  | nil => rfl
  | cons x xs ih =>
      rw [List.map_cons, List.mapM_cons, ih]
      rfl

/-- The status word `context` stands for that status only. -/
theorem statusWord_context {st : Status} (h : lit (statusWord st) = lit "context") :
    st = .context := by
  cases st <;> first | rfl | exact absurd h (by decide)

theorem opChatSend_frames [LawfulRuntime P.R] {oom ok : Bool} {id : CStr} {max : Nat}
    {ms : List Msg} (hne : ms ≠ []) {j : Json} (hmax : jsonGet j "max" = some (.num (.fin max)))
    {x x' : P.R.Chat} {c c' : Conn} (hsent₀ : c.sent = []) (hasked₀ : c.asked = [])
    (hdrops : P.R.drops x = false)
    (h : opChatSend P oom j (sendFrame id max ms).body x c = (x', c', ok)) :
    SentOk ms x x' c'.sent c'.asked := by
  have hnone : ∀ {y : P.R.Chat}, SentOk ms x y [] [] := .cut (by simp)
  have herror : ∀ {msg : String}, strstr (lit msg) (lit "unknown chat") = false →
      ∀ y, SentOk ms x y (replyError c msg).1.sent (replyError c msg).1.asked := by
    intro msg hmsg y
    obtain ⟨hsent, hasked⟩ := reply_cases c (.error (lit msg))
    rw [replyError, hasked, hasked₀]
    rcases hsent with ⟨_, hs⟩ | ⟨_, hs⟩
    · rw [hs, hsent₀]
      exact hnone
    · rw [hs, hsent₀]
      exact .error hmsg
  have hrefused : ∀ {st : Status} {y : P.R.Chat},
      (st = .context → P.R.conv y = P.R.conv x ∧ P.R.drops y = false) →
      SentOk ms x y (reply c (.failed (lit (statusWord st)) (P.R.errorText y))).1.sent
        (reply c (.failed (lit (statusWord st)) (P.R.errorText y))).1.asked := by
    intro st y hst
    obtain ⟨hsent, hasked⟩ := reply_cases c (.failed (lit (statusWord st)) (P.R.errorText y))
    rw [hasked, hasked₀]
    rcases hsent with ⟨_, hs⟩ | ⟨_, hs⟩
    · rw [hs, hsent₀]
      exact hnone
    · rw [hs, hsent₀]
      exact .refused (LawfulRuntime.error_text y) fun hw => hst (statusWord_context hw)
  unfold opChatSend at h
  rw [bodyMessages_send ms hne, hmax] at h
  simp only [jsonClamp, mapM_some] at h
  split at h
  · simp only [Prod.mk.injEq] at h
    obtain ⟨rfl, rfl, _⟩ := h
    exact herror (by decide) _
  · generalize P.castSize _ = n at h
    obtain ⟨hlconv, hldrops⟩ := LawfulRuntime.limit_conv (R := P.R) x n
    generalize P.R.limit x n = limited at h hlconv hldrops
    obtain ⟨st, y⟩ := limited
    split at h
    · next y' hl =>
        cases hl
        have hydrops : P.R.drops y = false := hldrops.trans hdrops
        split at h
        · next z hsend =>
            obtain ⟨hconv, hsaid, hzdrops⟩ := LawfulRuntime.send_ok y ms z hsend hydrops
            rw [hconv, hlconv, hasked₀, List.nil_append] at h
            obtain ⟨hsent, hasked⟩ := reply_cases
              { c with asked := [P.R.conv x ++ ms.map Msg.turn] } (.part false [])
            split at h
            · next c₁ hr =>
                simp only [Prod.mk.injEq] at h
                obtain ⟨_, rfl, _⟩ := h
                rw [hr] at hsent hasked
                rcases hsent with ⟨_, hs⟩ | ⟨hb, _⟩
                · have hs : c₁.sent = c.sent := hs
                  have hasked : c₁.asked = [P.R.conv x ++ ms.map Msg.turn] := hasked
                  rw [hs, hsent₀, hasked]
                  exact .cut (by simp)
                · cases hb
            · next c₁ hr =>
                rw [hr] at hsent hasked
                rcases hsent with ⟨hb, _⟩ | ⟨_, hs⟩
                · cases hb
                · obtain ⟨hasked', ps, o, hsent', hend⟩ := streamParts_frames h
                  have hframes : c'.sent = partFrames ((false, []) :: ps) ++ o.toList := by
                    have hs : c₁.sent = c.sent ++ [.part false []] := hs
                    rw [hsent', hs, hsent₀]
                    rfl
                  rw [hframes, hasked', hasked]
                  refine .stream (hconv.trans (by rw [hlconv])) hsaid hzdrops ?_
                  cases hend with
                  | cut => exact .cut
                  | failed hwhy => exact .failed hwhy
                  | finished hc hd => exact .finished hc hd
        · next st z hok hsend =>
            simp only [Prod.mk.injEq] at h
            obtain ⟨rfl, rfl, _⟩ := h
            refine hrefused fun hst => ?_
            obtain ⟨hc, hd⟩ := LawfulRuntime.send_context y ms _ (hst ▸ hsend) hydrops
            exact ⟨hc.trans hlconv, hd⟩
    · next st z hok hl =>
        cases hl
        simp only [Prod.mk.injEq] at h
        obtain ⟨rfl, rfl, _⟩ := h
        exact hrefused fun _ => ⟨hlconv, hldrops.trans hdrops⟩

/-! ## The client's side -/

/-- What was read of a stream that the client did not leave: all of its parts and
its last frame. -/
theorem readAnswer_stream {part : Nat → PartFate} {o : Option Reply} :
    ∀ {ps acc parts : List (Bool × CStr)} {n seen : Nat} {e : SendEnd},
      readAnswer part n ((partFrames ps ++ o.toList).take seen) acc = (parts, e) →
        e = .lost ∨ e = .client ∨
          ∃ r, o = some r ∧ readAnswer part (n + ps.length) [r] (acc ++ ps) = (parts, e) := by
  intro ps
  induction ps with
  | nil =>
      intro acc parts n seen e h
      cases o with
      | none =>
          rw [partFrames, List.map_nil, Option.toList_none, List.append_nil, List.take_nil,
            readAnswer] at h
          cases h
          exact .inl rfl
      | some r =>
          cases seen with
          | zero =>
              rw [List.take_zero, readAnswer] at h
              cases h
              exact .inl rfl
          | succ seen =>
              refine .inr (.inr ⟨r, rfl, ?_⟩)
              rw [List.append_nil]
              simpa [partFrames] using h
  | cons p ps ih =>
      intro acc parts n seen e h
      cases seen with
      | zero =>
          rw [List.take_zero, readAnswer] at h
          cases h
          exact .inl rfl
      | succ seen =>
          rw [partFrames, List.map_cons, List.cons_append, List.take_succ_cons,
            readAnswer] at h
          split at h
          · rcases ih h with he | he | ⟨r, hr, hread⟩
            · exact .inl he
            · exact .inr (.inl he)
            · refine .inr (.inr ⟨r, hr, ?_⟩)
              rw [List.length_cons, List.append_cons]
              rw [Nat.add_right_comm] at hread
              exact hread
          · cases h
            exact .inr (.inl rfl)
          · cases h
            exact .inr (.inl rfl)

/-- What the client may conclude from the end of a send. -/
theorem readAnswer_sent {part : Nat → PartFate} {ms : List Msg} {x x' : R.Chat}
    {frames : List Reply} {asked : List (List Turn)} {seen : Nat}
    {parts : List (Bool × CStr)} {e : SendEnd} (h : SentOk ms x x' frames asked)
    (hread : readAnswer part 0 (frames.take seen) [] = (parts, e)) :
    (∀ st, e = .done st → asked = [R.conv x ++ ms.map Msg.turn] ∧
      R.conv x' = R.conv x ++ ms.map Msg.turn ++ [⟨.assistant, answerText parts⟩] ∧
      R.drops x' = false) ∧
    (∀ s m, e = .refused s m → strstr m (lit "unknown chat") = false ∧
      (s = lit "context" → R.conv x' = R.conv x ∧ R.drops x' = false)) := by
  have hlost : readAnswer part 0 [] [] = (parts, e) →
      (∀ st, e ≠ .done st) ∧ ∀ s m, e ≠ .refused s m := by
    intro hnil
    cases hnil
    exact ⟨by simp, by simp⟩
  cases h with
  | cut =>
      rw [List.take_nil] at hread
      obtain ⟨hdone, href⟩ := hlost hread
      exact ⟨fun st he => absurd he (hdone st), fun s m he => absurd he (href s m)⟩
  | refused hwhy hkept =>
      cases seen with
      | zero =>
          obtain ⟨hdone, href⟩ := hlost hread
          exact ⟨fun st he => absurd he (hdone st), fun s m he => absurd he (href s m)⟩
      | succ seen =>
          rw [List.take_succ_cons, readAnswer] at hread
          cases hread
          refine ⟨by simp, fun s m he => ?_⟩
          cases he
          exact ⟨hwhy, hkept⟩
  | error hwhy =>
      cases seen with
      | zero =>
          obtain ⟨hdone, href⟩ := hlost hread
          exact ⟨fun st he => absurd he (hdone st), fun s m he => absurd he (href s m)⟩
      | succ seen =>
          rw [List.take_succ_cons, readAnswer] at hread
          cases hread
          refine ⟨by simp, fun s m he => ?_⟩
          cases he
          exact ⟨hwhy, fun h => absurd h (by decide)⟩
  | stream hconv hsaid hdrops hend =>
      rcases readAnswer_stream hread with rfl | rfl | ⟨r, rfl, hlast⟩
      · exact ⟨by simp, by simp⟩
      · exact ⟨by simp, by simp⟩
      · rw [List.nil_append] at hlast
        cases hend with
        | failed hwhy =>
            rw [readAnswer] at hlast
            cases hlast
            refine ⟨by simp, fun s m he => ?_⟩
            cases he
            exact ⟨hwhy, fun h => absurd h (by decide)⟩
        | finished hc hd =>
            rw [readAnswer] at hlast
            cases hlast
            refine ⟨fun st he => ⟨rfl, ?_, hd.trans hdrops⟩, by simp⟩
            rw [hc, hconv, hsaid, List.nil_append]

/-- Whatever became of a send, it was answered from what the chat held and the
messages sent. -/
theorem SentOk.asked {ms : List Msg} {x x' : R.Chat} {frames : List Reply}
    {asked : List (List Turn)} (h : SentOk ms x x' frames asked) :
    ∀ ts ∈ asked, ts = R.conv x ++ ms.map Msg.turn := by
  cases h with
  | cut hasked => exact hasked
  | refused => simp
  | error => simp
  | stream => simp

end GeistServe.Proofs
