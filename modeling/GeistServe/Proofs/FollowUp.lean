import GeistServe.Proofs.ChatMirror

/-!
# A follow-up sends only what is new

`Remembers a w answer` is what a call that ended with 0 leaves when no turn was
lost to a failed allocation: the chat is live, it is held under the call's path
and options, and the list holds the request and the answer. From such a world
the next call with the same options finds the whole list at the start of its
messages, so nothing is rewound or opened and the rest is sent; the answer comes
from what a fresh chat would hold.
-/

namespace GeistServe.Proofs

open GeistServe.Lib GeistServe.Geistd GeistServe.App

variable {P : Platform}

/-! ## What the first call leaves -/

/-- The held chat is for these options: whatever compares equal to them compares
equal to the held ones. -/
structure HeldFor (a : ChatArgs) (h : Held) : Prop where
  path : h.path = a.path
  temperature : ∀ t, a.temperature.feq t = true → h.temperature.feq t = true
  topP : ∀ t, a.topP.feq t = true → h.topP.feq t = true
  reasoning : h.reasoning = formatOf a.reasoning

structure Remembers (a : ChatArgs) (w : World P) (answer : CStr) : Prop where
  heldFor : HeldFor a w.held
  live : ∃ d i x, w.daemon = some (a.path, d) ∧ slot d.chats i = some x ∧
    w.held.id = some x.id
  turns : w.held.turns.map Msg.turn = a.messages.map Msg.turn ++ [⟨.assistant, answer⟩]

theorem feq_trans {p q r : Double} (hpq : p.feq q = true) (hqr : q.feq r = true) :
    p.feq r = true := by
  cases p <;> cases q <;> simp_all [Double.feq]

theorem HeldFor.of_fits {a : ChatArgs} {h : Held} (hf : fits h a = true) :
    HeldFor a h := by
  simp only [fits, Bool.and_eq_true, decide_eq_true_eq] at hf
  obtain ⟨⟨⟨⟨_, hpath⟩, ht⟩, hp⟩, hr⟩ := hf
  exact ⟨hpath, fun _ h => feq_trans ht h, fun _ h => feq_trans hp h, hr⟩

/-- With every allocation a success and room in the arrays, every turn is
pushed. -/
theorem heldPushAll_all {alloc : Nat → Bool} (halloc : ∀ k, alloc k = true) :
    ∀ {ms : List Msg} {k : Nat} {h : Held},
      h.turns.length + ms.length ≤ APP_CHAT_MESSAGES + 1 →
        heldPushAll alloc k h ms = { h with turns := h.turns ++ ms } := by
  intro ms
  induction ms with
  | nil =>
      intro k h _
      rw [heldPushAll, List.append_nil]
  | cons m ms ih =>
      intro k h hlen
      rw [List.length_cons] at hlen
      have hpush : heldPush (alloc k) h m = { h with turns := h.turns ++ [m] } := by
        unfold heldPush
        rw [if_neg (by simp only [halloc k, Bool.true_eq_false, or_false]; omega)]
      rw [heldPushAll, hpush, ih (by simp only [List.length_append, List.length_singleton]; omega)]
      simp

theorem sendRest_remembers [LawfulRuntime P.R] {a : ChatArgs} {env : CallEnv P}
    {capacity k keep : Nat} {id : CStr} {r : Run P} (hg : Good r.w) (hparts : r.parts = [])
    (hid : r.w.held.id = some id) (hfor : HeldFor a r.w.held)
    (halloc : ∀ k, env.alloc k = true) (hkeep : keep < a.messages.length)
    (hcount : a.messages.length ≤ APP_CHAT_MESSAGES)
    (hlen : r.w.held.turns.length ≤ keep)
    (hstart : r.w.held.turns.map Msg.turn = (a.messages.take keep).map Msg.turn) {e : CStr}
    (h : (sendRest a env capacity k id keep r).2 = .done 0 e) :
    Remembers a (sendRest a env capacity k id keep r).1.w
      (answerText (sendRest a env capacity k id keep r).1.parts) := by
  have hne : a.messages.drop keep ≠ [] := by
    rw [Ne, List.drop_eq_nil_iff]
    omega
  unfold sendRest at h ⊢
  simp only [hparts, List.length_nil] at h ⊢
  generalize hrpc : rpc r.w a.path _ _ = res at h ⊢
  obtain ⟨w', heard⟩ := res
  simp only at h ⊢
  generalize hread : readAnswer env.part 0 heard.frames [] = ans at h ⊢
  obtain ⟨parts, en⟩ := ans
  obtain ⟨hsound, hheld⟩ := rpc_sound hrpc hg
  obtain ⟨hdone, _⟩ := send_spec hg hid hfor.path hne hrpc hread
  simp only at h ⊢
  cases en with
  | refused s m =>
      simp only at h
      split at h
      · cases h
      · split at h <;> cases h
  | lost => cases h
  | client => cases h
  | done st =>
      obtain ⟨_, ⟨d, i, x, hd, hx, hxid⟩, _⟩ := hdone st rfl
      simp only at h ⊢
      split at h
      · cases h
      · next hclient =>
          split at h
          · next hfinish =>
              rw [if_neg hclient, if_pos hfinish]
              have hpush : heldPushAll env.alloc 0 r.w.held
                  (a.messages.drop keep ++ [⟨lit "assistant", answerText parts⟩]) =
                  { r.w.held with turns := r.w.held.turns ++
                    (a.messages.drop keep ++ [⟨lit "assistant", answerText parts⟩]) } := by
                refine heldPushAll_all halloc ?_
                rw [List.length_append, List.length_drop, List.length_singleton]
                omega
              simp only [remember, hheld, hpush]
              refine ⟨⟨hfor.path, hfor.temperature, hfor.topP, hfor.reasoning⟩,
                ⟨d, i, x, by rw [hd, hfor.path], hx, by rw [hid, hxid]⟩, ?_⟩
              simp only
              rw [List.map_append, hstart, List.map_append, ← List.append_assoc,
                ← List.map_append, List.take_append_drop]
              rfl
          · cases h

theorem attemptHeld_remembers [LawfulRuntime P.R] {a : ChatArgs} {env : CallEnv P}
    {capacity k : Nat} {id : CStr} {r : Run P} (hg : Good r.w) (hparts : r.parts = [])
    (hid : r.w.held.id = some id) (hfor : HeldFor a r.w.held)
    (halloc : ∀ k, env.alloc k = true) (hpos : 0 < a.messages.length)
    (hcount : a.messages.length ≤ APP_CHAT_MESSAGES) {e : CStr}
    (h : (attemptHeld a env capacity k id r).2 = .done 0 e) :
    Remembers a (attemptHeld a env capacity k id r).1.w
      (answerText (attemptHeld a env capacity k id r).1.parts) := by
  obtain ⟨hle, hlt, hstart⟩ :=
    common_start r.w.held.turns a.messages (a.messages.length - 1)
  unfold attemptHeld at h ⊢
  simp only at h ⊢
  generalize agree sameMsg r.w.held.turns (a.messages.take (a.messages.length - 1)) = keep
    at hle hlt hstart h ⊢
  obtain ⟨_, hheld, hsame, hgood⟩ := rewindTo_spec env k hg hid hfor.path hle
    (by omega)
  generalize rewindTo a env k id keep r = res at hheld hsame hgood h ⊢
  obtain ⟨r', ans⟩ := res
  simp only at hheld hsame hgood
  cases ans with
  | refused m =>
      simp only at h
      split at h <;> cases h
  | lost => cases h
  | good ans =>
      simp only at h ⊢
      rw [hheld] at h ⊢
      refine sendRest_remembers
        (r := { r' with w := { r'.w with held := heldKeep r.w.held keep } })
        (hgood ans rfl) (hsame.trans hparts) hid ?_ halloc (by omega) hcount ?_ hstart h
      · exact ⟨hfor.path, hfor.temperature, hfor.topP, hfor.reasoning⟩
      · simp only [heldKeep, List.length_take]
        omega

theorem openChat_heldFor [LawfulRuntime P.R] (a : ChatArgs) (env : CallEnv P) (k : Nat)
    (r : Run P) (id : CStr) (h : (openChat a env k r).2 = some id) :
    HeldFor a (openChat a env k r).1.w.held := by
  unfold openChat at h ⊢
  simp only at h ⊢
  split at h
  · split at h
    · next hlen =>
        rw [if_pos hlen]
        exact ⟨rfl, fun _ h => h, fun _ h => h, rfl⟩
    · cases h
  · cases h

theorem attempt_remembers [LawfulRuntime P.R] {a : ChatArgs} (env : CallEnv P)
    (capacity k : Nat) {r : Run P} (hg : Good r.w) (hparts : r.parts = [])
    (halloc : ∀ k, env.alloc k = true) (hpos : 0 < a.messages.length)
    (hcount : a.messages.length ≤ APP_CHAT_MESSAGES) {e : CStr}
    (h : (attempt a env capacity k r).2 = .done 0 e) :
    Remembers a (attempt a env capacity k r).1.w
      (answerText (attempt a env capacity k r).1.parts) := by
  unfold attempt at h ⊢
  by_cases hfits : fits r.w.held a = true
  · rw [if_pos hfits] at h ⊢
    have hfor := HeldFor.of_fits hfits
    simp only [fits, Bool.and_eq_true, decide_eq_true_eq] at hfits
    obtain ⟨id, hid⟩ := Option.isSome_iff_exists.mp hfits.1.1.1.1
    simp only [hid] at h ⊢
    exact attemptHeld_remembers hg hparts hid hfor halloc hpos hcount h
  · rw [if_neg hfits] at h ⊢
    obtain ⟨_, hsame, hopened⟩ := openChat_ok a env k hg
    have hheldFor := openChat_heldFor a env k r
    generalize openChat a env k r = res at hsame hopened hheldFor h ⊢
    obtain ⟨r', id⟩ := res
    cases id with
    | none => cases h
    | some id =>
        obtain ⟨hg', hid', _⟩ := hopened id rfl
        exact attemptHeld_remembers hg' (hsame.trans hparts) hid' (hheldFor id rfl) halloc
          hpos hcount h

/-- A call that ends with 0 comes from an attempt that does. -/
theorem finish_zero {env : CallEnv P} {r : Run P} {rc : Nat} {e : CStr}
    (h : (r.finish env rc e).2.rc = 0) : rc = 0 := by
  obtain ⟨hsame, hrestart⟩ := cleanup_rc rc e r.stats.stage env.errno
  have hfin : (cleanup rc e r.stats.stage env.errno).1 = 0 := h
  by_cases hrc : rc = 502
  · have hbad := hrestart hrc
    rw [hfin] at hbad
    exact absurd hbad (by decide)
  · exact (hsame hrc).symm.trans hfin

theorem attempts_remembers [LawfulRuntime P.R] {a : ChatArgs} {env : CallEnv P}
    {capacity : Nat} (halloc : ∀ k, env.alloc k = true) (hpos : 0 < a.messages.length)
    (hcount : a.messages.length ≤ APP_CHAT_MESSAGES) :
    ∀ {ks : List Nat} {r : Run P}, Good r.w → r.parts = [] →
      (attempts a env capacity ks r).2.rc = 0 →
        Remembers a (attempts a env capacity ks r).1
          (answerText (attempts a env capacity ks r).2.parts) := by
  intro ks
  induction ks with
  | nil =>
      intro r _ _ h
      cases finish_zero h
  | cons k ks ih =>
      intro r hg hparts h
      have hok := attempt_ok env capacity k hg hparts hpos
        hcount
      have hrem := fun e => attempt_remembers env capacity k
        (e := e) hg hparts halloc hpos hcount
      rw [attempts] at h ⊢
      generalize attempt a env capacity k r = res at hok hrem h ⊢
      obtain ⟨r', e⟩ := res
      cases e with
      | done rc error =>
          cases finish_zero h
          exact hrem error rfl
      | again => exact ih hok.1 hok.2 h

/-- What a call that ends with 0 leaves. -/
theorem appDaemonChat_remembers [LawfulRuntime P.R] {w : World P} {a : ChatArgs}
    {env : CallEnv P} (hg : Good w) (halloc : ∀ k, env.alloc k = true)
    (h : (appDaemonChat w a env).2.rc = 0) :
    Remembers a (appDaemonChat w a env).1 (answerText (appDaemonChat w a env).2.parts) ∧
      a.path.length < 108 := by
  unfold appDaemonChat at h ⊢
  simp only at h ⊢
  split at h
  · cases finish_zero h
  · next hstart =>
      rw [if_neg hstart]
      have hname : w.held.id.isSome → chatOf infoFrame ≠ w.held.id := by
        intro hsome hnone
        rw [← hnone] at hsome
        cases hsome
      generalize hrpc : rpc w a.path _ _ = res at h ⊢
      obtain ⟨w', heard⟩ := res
      obtain ⟨hg', _⟩ := rpc_good hrpc hg hname
      simp only at h ⊢
      split at h
      · split at h
        · cases finish_zero h
        · next hapi =>
            rw [if_neg hapi]
            split at h
            · cases finish_zero h
            · next hcap =>
                rw [if_neg hcap]
                exact ⟨attempts_remembers halloc (by omega) (by omega) hg' rfl h, by omega⟩
      · cases finish_zero h

/-! ## The second call -/

/-- The next call asks for the same chat: its path, its sampling options by the
`==` of floats, its reasoning format. -/
structure SameChat (a b : ChatArgs) : Prop where
  path : b.path = a.path
  temperature : a.temperature.feq b.temperature = true
  topP : a.topP.feq b.topP = true
  reasoning : formatOf b.reasoning = formatOf a.reasoning

theorem Remembers.fits {a b : ChatArgs} {w : World P} {answer : CStr}
    (h : Remembers a w answer) (hsame : SameChat a b) : fits w.held b = true := by
  obtain ⟨_, _, _, _, _, hid⟩ := h.live
  simp only [App.fits, Bool.and_eq_true, decide_eq_true_eq]
  refine ⟨⟨⟨⟨by rw [hid]; rfl, ?_⟩, ?_⟩, ?_⟩, ?_⟩
  · exact h.heldFor.path.trans hsame.path.symm
  · exact h.heldFor.temperature _ hsame.temperature
  · exact h.heldFor.topP _ hsame.topP
  · exact h.heldFor.reasoning.trans hsame.reasoning.symm

/-- The whole list is the common start. -/
theorem Remembers.common {a b : ChatArgs} {w : World P} {answer : CStr} {next : List Msg}
    (h : Remembers a w answer) (hnext : next ≠ [])
    (hms : b.messages = a.messages ++ [⟨lit "assistant", answer⟩] ++ next) :
    agree sameMsg w.held.turns (b.messages.take (b.messages.length - 1)) =
      w.held.turns.length := by
  have htake : b.messages.take (b.messages.length - 1) =
      (a.messages ++ [⟨lit "assistant", answer⟩]) ++ next.dropLast := by
    rw [hms, ← List.dropLast_eq_take, List.dropLast_append_of_ne_nil hnext]
  rw [htake]
  refine agree_full ?_ _
  have hturns : w.held.turns.map Msg.turn =
      (a.messages ++ [(⟨lit "assistant", answer⟩ : Msg)]).map Msg.turn := by
    rw [h.turns, List.map_append]
    rfl
  have heq := List.forall₂_map_right_iff.mp
    (List.forall₂_map_left_iff.mp (List.forall₂_eq_eq_eq (α := Turn) ▸ hturns))
  exact heq.imp fun x y hxy => sameMsg_iff.mpr hxy

theorem handle_info {d : Daemon P} (hneed : d.needHello = false) (env : Env) (c : Conn) :
    handle d env infoFrame c =
      Daemon.say { c with ran := c.ran ++ [lit "info"] } (d, d.opInfo) := by
  have hop : jsonStrdup (jsonGet [(lit "op", JVal.str (lit "info"))] "op") =
      some (lit "info") := rfl
  have hne : lit "info" ≠ lit "hello" := by decide
  unfold handle infoFrame
  simp only [hop, if_neg hne, hneed, Bool.false_and, Bool.false_eq_true, if_false]
  rfl

/-- An `info` that nothing gets in the way of: the world is as it was, and what
is heard, if anything, is what the daemon says. -/
theorem rpc_info {w : World P} {path : CStr} {d : Daemon P} {ft : Fate P}
    (hd : w.daemon = some (path, d)) (hneed : d.needHello = false) (hquiet : ft.before = []) :
    (rpc w path ft infoFrame).1 = w ∧
      ((rpc w path ft infoFrame).2.answer = .lost ∨
        (rpc w path ft infoFrame).2.answer = .good d.opInfo) ∧
      (ft.delivered = true → ft.life ≠ some 0 → 0 < ft.seen →
        (rpc w path ft infoFrame).2.answer = .good d.opInfo) := by
  have hfree : newIdFree w d ft.env infoFrame = true := by
    have hop : opOf infoFrame ≠ some (lit "chat_open") := by decide
    unfold newIdFree
    rw [decide_eq_true hop, Bool.true_or]
  unfold rpc
  rw [hquiet]
  simp only [List.foldl_nil, hd, hfree, handle_info hneed]
  by_cases hdel : ft.delivered = true
  · simp only [hdel, and_self, if_true, Daemon.say]
    obtain ⟨hsent, _⟩ := reply_cases { life := ft.life, ran := [] ++ [lit "info"] } d.opInfo
    have hw : ({ w with daemon := some (path, d) } : World P) = w := by rw [← hd]
    refine ⟨hw, ?_, fun _ hlife hseen => ?_⟩
    · rcases hsent with ⟨_, hs⟩ | ⟨_, hs⟩
      · rw [hs, List.take_nil]
        exact .inl rfl
      · rw [hs]
        cases ft.seen with
        | zero => exact .inl rfl
        | succ n => exact .inr rfl
    · have hgot : (reply { life := ft.life, ran := [] ++ [lit "info"] } d.opInfo).1.sent =
          [d.opInfo] := by
        unfold reply
        cases hl : ft.life with
        | none => rfl
        | some n =>
            cases n with
            | zero => exact absurd hl hlife
            | succ n => rfl
      rw [hgot]
      obtain ⟨n, hn⟩ := Nat.exists_eq_succ_of_ne_zero (Nat.pos_iff_ne_zero.mp hseen)
      rw [hn]
      rfl
  · simp only [hdel, Bool.false_eq_true, false_and, and_false, if_false]
    exact ⟨trivial, .inl rfl, fun h => by cases h⟩

/-- A send to a chat that is live, with nothing before it. -/
theorem rpc_send_live [LawfulRuntime P.R] {w : World P} {d : Daemon P} {id : CStr} {i : Nat} (max : Nat)
    {x : Chat P.R} {ft : Fate P} {ms : List Msg} (hg : Good w)
    (hd : w.daemon = some (w.held.path, d)) (hx : slot d.chats i = some x)
    (hxid : x.id = id) (hid : w.held.id = some id) (hne : ms ≠ []) (hquiet : ft.before = []) :
    (∀ ts ∈ (rpc w w.held.path ft (sendFrame id max ms)).2.asked,
      ts = w.held.turns.map Msg.turn ++ ms.map Msg.turn) ∧
    ∀ part parts s m, readAnswer part 0 (rpc w w.held.path ft (sendFrame id max ms)).2.frames [] =
      (parts, SendEnd.refused s m) → strstr m (lit "unknown chat") = false := by
  obtain ⟨_, hneed, hu, _⟩ := hg.sound.daemon _ d hd
  obtain ⟨hdrops, hconv⟩ := hg.mirrors _ d id hd rfl hid i x hx hxid
  cases hxid
  unfold rpc
  rw [hquiet]
  simp only [List.foldl_nil, hd]
  split
  · obtain ⟨d', y, c, ok, hhandle, _, hok⟩ := handle_send ft.env ft.life max
      hneed (chatFind_unique hu hx) hx hne hdrops
    rw [hhandle]
    rw [← hconv]
    exact ⟨hok.asked, fun part parts s m hread => ((readAnswer_sent hok hread).2 s m rfl).1⟩
  · refine ⟨fun ts hts => (by cases hts), fun part parts s m hread => ?_⟩
    cases hread

/-- What the second call does, up to its end: it sends `next` and nothing else,
and what it is answered from is its own messages. -/
structure Follows (b : ChatArgs) (next : List Msg) (did : List Did) (r : Run P) : Prop where
  did : r.did = did ++ [.chatSend next]
  base : ∀ ts, r.base = some ts → ts = b.messages.map Msg.turn

theorem sendRest_follows [LawfulRuntime P.R] (b : ChatArgs) (env : CallEnv P)
    (capacity k keep : Nat) {id : CStr} {r : Run P} {d : Daemon P} {i : Nat} {x : Chat P.R}
    (hg : Good r.w) (hd : r.w.daemon = some (r.w.held.path, d)) (hx : slot d.chats i = some x)
    (hxid : x.id = id) (hid : r.w.held.id = some id) (hpath : r.w.held.path = b.path)
    (hparts : r.parts = []) (hquiet : (env.fate (.chatSend k)).before = [])
    (hne : b.messages.drop keep ≠ [])
    (hstart : r.w.held.turns.map Msg.turn = (b.messages.take keep).map Msg.turn) :
    Follows b (b.messages.drop keep) r.did (sendRest b env capacity k id keep r).1 ∧
      ∃ rc e, (sendRest b env capacity k id keep r).2 = .done rc e := by
  have hall : r.w.held.turns.map Msg.turn ++ (b.messages.drop keep).map Msg.turn =
      b.messages.map Msg.turn := by
    rw [hstart, ← List.map_append, List.take_append_drop]
  obtain ⟨hasked, hknown⟩ := rpc_send_live b.max hg hd hx hxid hid hne hquiet
  rw [hall] at hasked
  rw [hpath] at hasked hknown
  unfold sendRest
  simp only [hparts, List.length_nil]
  generalize rpc r.w b.path _ _ = res at hasked hknown
  obtain ⟨w', heard⟩ := res
  simp only at hasked hknown ⊢
  have hbase : ∀ ts, heard.asked.getLast? = some ts → ts = b.messages.map Msg.turn :=
    fun ts hts => hasked ts (List.mem_of_getLast? hts)
  generalize hread : readAnswer env.part 0 heard.frames [] = ans
  obtain ⟨parts, ending⟩ := ans
  simp only
  split
  · next s m =>
      rw [hknown _ _ s m hread]
      simp only [Bool.false_eq_true, if_false]
      split
      · exact ⟨⟨rfl, hbase⟩, _, _, rfl⟩
      · exact ⟨⟨rfl, hbase⟩, _, _, rfl⟩
  · exact ⟨⟨rfl, hbase⟩, _, _, rfl⟩
  · exact ⟨⟨rfl, hbase⟩, _, _, rfl⟩
  · split
    · exact ⟨⟨rfl, hbase⟩, _, _, rfl⟩
    · split
      · exact ⟨⟨rfl, hbase⟩, _, _, rfl⟩
      · exact ⟨⟨rfl, hbase⟩, _, _, rfl⟩

theorem attempt_follows [LawfulRuntime P.R] {a : ChatArgs} (b : ChatArgs) (env : CallEnv P)
    (capacity k : Nat) {answer : CStr} {next : List Msg} {r : Run P} (hg : Good r.w)
    (hrem : Remembers a r.w answer) (hsame : SameChat a b) (hnext : next ≠ [])
    (hms : b.messages = a.messages ++ [⟨lit "assistant", answer⟩] ++ next)
    (hparts : r.parts = []) (hquiet : ∀ call, (env.fate call).before = []) :
    Follows b next r.did (attempt b env capacity k r).1 ∧
      ∃ rc e, (attempt b env capacity k r).2 = .done rc e := by
  obtain ⟨d, i, x, hd, hx, hid⟩ := hrem.live
  have hpath : r.w.held.path = b.path := hrem.heldFor.path.trans hsame.path.symm
  have hlen : r.w.held.turns.length =
      (a.messages ++ [(⟨lit "assistant", answer⟩ : Msg)]).length := by
    have := congrArg List.length hrem.turns
    simpa using this
  have hdrop : b.messages.drop r.w.held.turns.length = next := by
    rw [hlen, hms, List.drop_left]
  have hstart : r.w.held.turns.map Msg.turn =
      (b.messages.take r.w.held.turns.length).map Msg.turn := by
    rw [hlen, hms, List.take_left, hrem.turns, List.map_append]
    rfl
  unfold attempt
  rw [if_pos (hrem.fits hsame)]
  simp only [hid]
  -- The list is matched whole, so there is nothing to rewind.
  unfold attemptHeld rewindTo
  simp only [hrem.common hnext hms, lt_irrefl, if_false]
  have hkept : heldKeep r.w.held r.w.held.turns.length = r.w.held := by
    rw [heldKeep, List.take_length]
  rw [hkept]
  have hfollow := sendRest_follows b env capacity k r.w.held.turns.length hg
    (by rw [hpath, hsame.path]; exact hd) hx rfl hid hpath hparts (hquiet _)
    (by rw [hdrop]; exact hnext) hstart
  rwa [hdrop] at hfollow

/-- The chat a follow-up is answered from, compared with a new one: what a fresh
chat, opened to refuse overflow, holds once it was sent the messages. -/
def FreshHolds (R : Runtime) (ms : List Msg) (ts : List Turn) : Prop :=
  ∀ m o m' x y, R.chatOpen m o = (m', some x) → o.dropOldest = false →
    R.send x ms = (.ok, y) → R.conv y = ts

theorem freshHolds [LawfulRuntime P.R] (ms : List Msg) :
    FreshHolds P.R ms (ms.map Msg.turn) := by
  intro m o m' x y hopen ho hsend
  obtain ⟨hconv, hdrops⟩ := LawfulRuntime.open_new m o m' x hopen
  obtain ⟨hsent, _, _⟩ := LawfulRuntime.send_ok x ms y hsend (hdrops.trans ho)
  rw [hsent, hconv, List.nil_append]

/-- A second call gets as far as its chat: its allocations succeed, the limit it
asks for is one, and the `info` that it starts with is answered. -/
structure GetsThrough (b : ChatArgs) (env : CallEnv P) : Prop where
  started : env.started = true
  max : b.max ≤ 4095
  delivered : (env.fate .info).delivered = true
  alive : (env.fate .info).life ≠ some 0
  read : 0 < (env.fate .info).seen

theorem follow_up [LawfulRuntime P.R] {a b : ChatArgs} {env : CallEnv P} {w : World P}
    {answer : CStr} {next : List Msg} (hg : Good w) (hrem : Remembers a w answer)
    (hlen : a.path.length < 108) (hsame : SameChat a b) (hnext : next ≠ [])
    (hms : b.messages = a.messages ++ [⟨lit "assistant", answer⟩] ++ next)
    (hcount : b.messages.length ≤ APP_CHAT_MESSAGES)
    (hquiet : ∀ call, (env.fate call).before = []) :
    (appDaemonChat w b env).2.did <+: [.info, .chatSend next] ∧
      (GetsThrough b env → (appDaemonChat w b env).2.did = [.info, .chatSend next]) ∧
      ∀ ts, (appDaemonChat w b env).2.base = some ts → ts = b.messages.map Msg.turn := by
  obtain ⟨d, i, x, hd, hx, hid⟩ := hrem.live
  have hok := hg.sound.daemon _ d hd
  have hpos : 0 < b.messages.length := by
    rw [hms, List.length_append]
    have := List.length_pos_iff.mpr hnext
    omega
  rw [← hsame.path] at hd
  obtain ⟨hworld, hheard, hgood⟩ := rpc_info hd hok.needHello (hquiet .info)
  unfold appDaemonChat
  simp only
  split
  · next hstart =>
      refine ⟨List.nil_prefix, fun hthrough => ?_, fun ts hts => by cases hts⟩
      have := hthrough.started
      rw [hsame.path] at hstart
      rcases hstart with h | h | h | h
      · rw [this] at h
        cases h
      · omega
      · omega
      · omega
  · generalize rpc w b.path _ _ = res at hworld hheard hgood ⊢
    obtain ⟨w', heard⟩ := res
    simp only at hworld hheard hgood ⊢
    cases hworld
    have hinfo : ∀ rc e, (Run.finish (P := P) { w := w, did := [Did.info] } env rc e).2.did <+:
        [Did.info, .chatSend next] := fun rc e => ⟨[.chatSend next], rfl⟩
    rcases hheard with hlost | hinfoed
    · rw [hlost]
      refine ⟨hinfo _ _, fun h => ?_, fun ts hts => by cases hts⟩
      have := hgood h.delivered h.alive h.read
      rw [hlost] at this
      cases this
    · rw [hinfoed]
      simp only [Daemon.opInfo, hok.api i x hx, Bool.true_eq_false, if_false]
      split
      · next hcap =>
          refine ⟨hinfo _ _, fun h => ?_, fun ts hts => by cases hts⟩
          have := h.max
          unfold CTX_CAP at hcap
          omega
      · obtain ⟨⟨hdid, hbase⟩, rc, e, hend⟩ := attempt_follows b env CTX_CAP 0
          (r := { w := w, did := [Did.info], stats := { stage := .opening } })
          hg hrem hsame hnext hms rfl hquiet
        rw [attempts]
        generalize attempt b env _ 0 _ = res at hdid hbase hend ⊢
        obtain ⟨r', ending⟩ := res
        cases hend
        exact ⟨⟨[], by rw [List.append_nil]; exact hdid⟩, fun _ => hdid, hbase⟩

/-! ## One call after another -/

/-- After a call that ended with 0 and whose turns were all remembered, the next
call for the same chat sends its new turns and nothing else, and is answered from
what a fresh chat would hold. -/
theorem follow_up_sends_new_turns [LawfulRuntime P.R] {w : World P}
    (h : (appMachine P).Reach Machine.free w) (a b : ChatArgs) (env env' : CallEnv P)
    (next : List Msg) (hrc : (appDaemonChat w a env).2.rc = 0)
    (halloc : ∀ k, env.alloc k = true) (hsame : SameChat a b) (hnext : next ≠ [])
    (hms : b.messages = a.messages ++
      [⟨lit "assistant", answerText (appDaemonChat w a env).2.parts⟩] ++ next)
    (hcount : b.messages.length ≤ APP_CHAT_MESSAGES)
    (hquiet : ∀ call, (env'.fate call).before = []) :
    let second := (appDaemonChat (appDaemonChat w a env).1 b env').2
    second.did <+: [.info, .chatSend next] ∧
      (GetsThrough b env' → second.did = [.info, .chatSend next]) ∧
      ∀ ts, second.base = some ts →
        ts = b.messages.map Msg.turn ∧ FreshHolds P.R b.messages ts := by
  have hgood : Good (appDaemonChat w a env).1 :=
    (appDaemonChat_ok a env (reach_good h)).good (by rw [hrc]; decide)
  obtain ⟨hrem, hlen⟩ := appDaemonChat_remembers (reach_good h) halloc hrc
  obtain ⟨hdid, hsends, hbase⟩ := follow_up hgood hrem hlen hsame hnext hms hcount hquiet
  refine ⟨hdid, hsends, fun ts hts => ?_⟩
  rw [hbase ts hts]
  exact ⟨rfl, freshHolds b.messages⟩

theorem follow_up_sends_new_turns_plain :
    (appDaemonChat (talkedWorld (askPlain [("user", "a")]) smooth)
      (askPlain [("user", "a"), ("assistant", "a"), ("user", "c")]) smooth).2.did =
      [.info, .chatSend [⟨lit "user", lit "c"⟩]] := by
  exact (follow_up_sends_new_turns upWorld_reach (askPlain [("user", "a")])
    (askPlain [("user", "a"), ("assistant", "a"), ("user", "c")]) smooth smooth
    [⟨lit "user", lit "c"⟩] (by decide +kernel) (fun _ => rfl)
    ⟨rfl, by decide +kernel, by decide +kernel, rfl⟩ (by decide) (by decide +kernel)
    (by decide) (fun _ => rfl)).2.1 ⟨rfl, by decide, rfl, by decide, by decide⟩

/-- The memory for the answer's turn is not there. -/
def forgetful : CallEnv plain := { smooth with alloc := fun k => k = 0 }

/-- After a call that ended with 0: a turn that could not be remembered has the
next call open a chat and send everything; a call whose first request does not
arrive, or that asks for more than 4095 tokens, sends nothing. -/
theorem follow_up_can_open_or_stop :
    let first := appDaemonChat upWorld (askPlain [("user", "a")]) smooth
    let lossy := appDaemonChat upWorld (askPlain [("user", "a")]) forgetful
    let again := askPlain [("user", "a"), ("assistant", "a"), ("user", "c")]
    (first.2.rc = 0 ∧ answerText first.2.parts = lit "a") ∧
      (lossy.2.rc = 0 ∧ answerText lossy.2.parts = lit "a") ∧
      (appDaemonChat lossy.1 again
        { fate := fun _ => { env := ⟨2, lit "fedcba9876543210", false⟩, seen := 8 } }).2.did =
        [.info, .chatOpen, .chatSend again.messages] ∧
      (appDaemonChat first.1 again
        { fate := fun _ => { env := ⟨2, [], false⟩, delivered := false, seen := 0 } }).2.did =
        [.info] ∧
      (appDaemonChat first.1 { again with max := 4096 } smooth).2.did = [.info] := by
  decide +kernel

end GeistServe.Proofs
