import GeistServe.Geistd.Main
import GeistServe.Geistd.Plain
import GeistServe.Proofs.ChatTable
import GeistServe.Proofs.SessionMirror

/-!
# The hello gate

`Gated d` is what a daemon on an open network owes: before a connection has
had a hello with the configured token, none of its frames runs an op or
changes the daemon, and a hello with any other token ends it. The gate in
`handle` gives this whenever `needHello` is set, since no op touches the token,
the flag, or a connection's standing.

Whether `needHello` is set is decided in `main` by the name that `--host`
gives, and the listener may come from elsewhere. `startup_gated_iff` says
exactly when the two agree.
-/

namespace GeistServe.Proofs

open GeistServe.Lib GeistServe.Geistd

variable {P : Platform}

/-- The frame changes nothing and runs nothing. -/
def Inert (d : Daemon P) (env : Env) (f : Frame) (c : Conn) : Prop :=
  (handle d env f c).1 = d ∧ (handle d env f c).2.1.ran = c.ran

/-- In every state the daemon can reach, on every open connection. -/
def Gated (d : Daemon P) : Prop :=
  ∃ t, d.token = some t ∧
    ∀ s, (Server.machine (· = started d)).Reach Machine.free s →
      ∀ k c, s.conns k = some c → ∀ env f,
        (some t ∉ c.hellos → opOf f ≠ some (lit "hello") → Inert s.d env f c) ∧
        (opOf f = some (lit "hello") → tokenOf f ≠ some t →
          Inert s.d env f c ∧ (handle s.d env f c).2.2 = false)

/-! ## What ops leave alone -/

/-- A connection that was only written to. -/
structure Written (c c' : Conn) : Prop where
  authed : c'.authed = c.authed
  hellos : c'.hellos = c.hellos
  ran : c'.ran = c.ran

theorem Written.refl (c : Conn) : Written c c := ⟨rfl, rfl, rfl⟩

theorem Written.trans {a b c : Conn} (h : Written a b) (h' : Written b c) : Written a c :=
  ⟨h'.authed.trans h.authed, h'.hellos.trans h.hellos, h'.ran.trans h.ran⟩

theorem reply_written (c : Conn) (r : Reply) : Written c (reply c r).1 := by
  unfold reply
  split
  · exact .refl c
  · split <;> exact ⟨rfl, rfl, rfl⟩

theorem written_of_reply {c c' : Conn} {r : Reply} {ok : Bool} (h : reply c r = (c', ok)) :
    Written c c' := by
  have hw := reply_written c r
  rwa [h] at hw

theorem genLoop_written {E : Engine} (st : Stops) : ∀ (fuel k : Nat) (tail : CStr)
    (x : Sess E) {c : Conn}, Written c (genLoop st fuel k tail x c).2.1 := by
  intro fuel
  induction fuel with
  | zero => exact fun _ _ _ _ => .refl _
  | succ fuel ih =>
      intro k tail x c
      rw [genLoop]
      split
      · exact .refl _
      · split
        · exact .refl _
        · simp only
          split
          · next hr => exact written_of_reply hr
          · next hr =>
              split
              · exact written_of_reply hr
              · exact (written_of_reply hr).trans (ih ..)

theorem streamParts_written {R : Runtime} : ∀ {fuel : Nat} {x : R.Chat} {c : Conn},
    Written c (streamParts fuel x c).2.1 := by
  intro fuel
  induction fuel with
  | zero => exact .refl _
  | succ fuel ih =>
      intro x c
      rw [streamParts]
      split
      · split
        · next hr => exact written_of_reply hr
        · next hr => exact (written_of_reply hr).trans ih
      · exact reply_written _ _
      · exact reply_written _ _

theorem opGenerate_written {E : Engine} {st : Stops} {max : Nat} {x : Sess E} {c : Conn} :
    Written c (opGenerate st max x c).2.1 := by
  unfold opGenerate
  split
  · exact reply_written _ _
  · have hloop := genLoop_written st max 0 [] x
      (c := c)
    split
    next x' c' reason k heq =>
      rw [heq] at hloop
      simp only
      split
      · exact hloop
      · exact hloop.trans (reply_written _ _)

theorem opChatSend_written (oom : Bool) (j : Json) (body : Body) (x : P.R.Chat) (c : Conn) :
    Written c (opChatSend P oom j body x c).2.1 := by
  unfold opChatSend
  simp only
  split
  · exact reply_written _ _
  · split
    · split
      · split
        · exact reply_written _ _
        · split
          · next x' _ =>
              have hasked : Written c { c with asked := c.asked ++ [P.R.conv x'] } :=
                ⟨rfl, rfl, rfl⟩
              split
              · next hr => exact hasked.trans (written_of_reply hr)
              · next hr =>
                  exact (hasked.trans (written_of_reply hr)).trans streamParts_written
          · exact reply_written _ _
      · exact reply_written _ _
    · exact reply_written _ _

theorem say_written (c : Conn) (dr : Daemon P × Reply) : Written c (Daemon.say c dr).2.1 :=
  reply_written c dr.2

/-- The standing of the daemon and of the connection after a frame. -/
structure Stands (d : Daemon P) (c : Conn) (r : Daemon P × Conn × Bool) : Prop where
  token : r.1.token = d.token
  needHello : r.1.needHello = d.needHello
  rt : d.rt.isSome → r.1.rt.isSome
  conn : Written c r.2.1

theorem say_stands {d : Daemon P} {c : Conn} {dr : Daemon P × Reply}
    (ht : dr.1.token = d.token) (hn : dr.1.needHello = d.needHello)
    (hrt : d.rt.isSome → dr.1.rt.isSome) : Stands d c (Daemon.say c dr) :=
  ⟨ht, hn, hrt, say_written c dr⟩

theorem onSess_stands {d : Daemon P} {c : Conn} {k : Option Nat} {miss : String}
    {f : Sess P.E → Sess P.E × Reply} :
    Stands d c (Daemon.say c (d.onSess k miss f)) := by
  unfold Daemon.onSess
  split <;> exact say_stands rfl rfl id

theorem opOpen_stands {d : Daemon P} {c : Conn} {env : Env} {j : Json} :
    Stands d c (Daemon.say c (d.opOpen env j)) := by
  unfold Daemon.opOpen
  simp only
  split
  · exact say_stands rfl rfl id
  · split
    · exact say_stands rfl rfl id
    · split <;> exact say_stands rfl rfl id

theorem opTokenize_stands {d : Daemon P} {c : Conn} {j : Json} :
    Stands d c (Daemon.say c (d.opTokenize j)) := by
  unfold Daemon.opTokenize
  split
  · exact say_stands rfl rfl id
  · simp only
    split
    · exact say_stands rfl rfl id
    · split <;> exact say_stands rfl rfl id

theorem opPeek_stands {d : Daemon P} {c : Conn} {k : Option Nat} :
    Stands d c (Daemon.say c (d.opPeek k)) := by
  unfold Daemon.opPeek
  split
  · exact say_stands rfl rfl id
  · simp only
    split <;> exact say_stands rfl rfl id

theorem opClose_stands {d : Daemon P} {c : Conn} {k : Option Nat} :
    Stands d c (Daemon.say c (d.opClose k)) := by
  unfold Daemon.opClose
  split <;> exact say_stands rfl rfl id

theorem generate_stands {d : Daemon P} {c : Conn} {k : Option Nat} {j : Json} :
    Stands d c (d.generate k j c) := by
  unfold Daemon.generate
  split
  · exact say_stands rfl rfl id
  · exact ⟨rfl, rfl, id, opGenerate_written⟩

theorem findChat_stands (d : Daemon P) (env : Env) (id : Option CStr) :
    (d.findChat env id).1.token = d.token ∧
      (d.findChat env id).1.needHello = d.needHello ∧ (d.findChat env id).1.rt = d.rt := by
  unfold Daemon.findChat
  split <;> exact ⟨rfl, rfl, rfl⟩

theorem findSess_stands (d : Daemon P) (env : Env) (id : Option CStr) :
    (d.findSess env id).1.token = d.token ∧
      (d.findSess env id).1.needHello = d.needHello ∧ (d.findSess env id).1.rt = d.rt := by
  unfold Daemon.findSess
  split <;> exact ⟨rfl, rfl, rfl⟩

theorem chatOp_stands {d : Daemon P} {env : Env} {op : CStr} {j : Json} {body : Body}
    {c : Conn} : Stands d c (d.chatOp env op j body c) := by
  obtain ⟨ht, hn, hrt⟩ := findChat_stands d env (jsonStrdup (jsonGet j "chat"))
  have hrt : d.rt.isSome →
      (d.findChat env (jsonStrdup (jsonGet j "chat"))).1.rt.isSome := fun h => hrt ▸ h
  unfold Daemon.chatOp
  simp only
  split
  · exact say_stands ht hn fun h => opChatOpen_rt (hrt h)
  · split
    · split
      · exact say_stands ht hn hrt
      · exact ⟨ht, hn, hrt, opChatSend_written _ _ _ _ _⟩
    · split
      · exact say_stands ht hn hrt
      · split
        · exact say_stands ht hn hrt
        · split <;> exact say_stands ht hn hrt

theorem Stands.from {d d' : Daemon P} {c : Conn} {r : Daemon P × Conn × Bool}
    (h : Stands d' c r)
    (hd : d'.token = d.token ∧ d'.needHello = d.needHello ∧ d'.rt = d.rt) : Stands d c r :=
  ⟨h.token.trans hd.1, h.needHello.trans hd.2.1, fun hrt => h.rt (hd.2.2 ▸ hrt), h.conn⟩

theorem dispatch_stands (d : Daemon P) (env : Env) (op : CStr) (j : Json) (body : Body)
    (c : Conn) : Stands d c (dispatch d env op j body c) := by
  generalize hsid : jsonStrdup (jsonGet j "session") = sid
  have hfind := findSess_stands d env sid
  generalize hd : d.findSess env sid = found at hfind
  obtain ⟨d', x⟩ := found
  refine Stands.from ?_ hfind
  unfold dispatch
  rw [hsid, hd]
  have branch : ∀ {q : Prop} [Decidable q] {a b : Daemon P × Conn × Bool},
      Stands d' c a → Stands d' c b → Stands d' c (if q then a else b) := by
    intro q _ a b ha hb
    split
    · exact ha
    · exact hb
  have same : ∀ {r : Reply}, Stands d' c (Daemon.say c (d', r)) := say_stands rfl rfl id
  exact branch same <| branch same <| branch onSess_stands <| branch opOpen_stands <|
    branch opTokenize_stands <| branch onSess_stands <| branch onSess_stands <|
    branch opPeek_stands <| branch onSess_stands <| branch generate_stands <|
    branch onSess_stands <| branch onSess_stands <| branch chatOp_stands <|
    branch opClose_stands same

/-- A frame leaves the token and the flag of the daemon alone, and the runtime's
model where it is. -/
theorem handle_config (d : Daemon P) (env : Env) (f : Frame) (c : Conn) :
    (handle d env f c).1.token = d.token ∧
      (handle d env f c).1.needHello = d.needHello ∧
      (d.rt.isSome → (handle d env f c).1.rt.isSome) := by
  unfold handle
  split
  · exact ⟨rfl, rfl, id⟩
  · split
    · exact ⟨rfl, rfl, id⟩
    · simp only
      split
      · split <;> exact ⟨rfl, rfl, id⟩
      · split
        · exact ⟨rfl, rfl, id⟩
        · obtain ⟨ht, hn, hrt, _⟩ := dispatch_stands d env _ _ f.body _
          exact ⟨ht, hn, hrt⟩

/-! ## The gate, one frame -/

/-- A connection stands open only after a hello with the token. -/
def Opened (t : CStr) (c : Conn) : Prop := c.authed = true → some t ∈ c.hellos

theorem helloGood_iff {t : CStr} {tok : Option CStr} :
    helloGood (some t) tok = true ↔ tok = some t := by
  simp [helloGood]

/-- A frame on a guarded daemon keeps what an open connection has behind it. -/
theorem handle_opened {d : Daemon P} {t : CStr} (ht : d.token = some t) (env : Env)
    (f : Frame) {c : Conn} (hc : Opened t c) : Opened t (handle d env f c).2.1 := by
  have keep : ∀ {r : Reply}, Opened t (reply c r).1 := by
    intro r hauth
    rw [(reply_written c r).authed] at hauth
    rw [(reply_written c r).hellos]
    exact hc hauth
  unfold handle
  split
  · exact keep
  · split
    · exact keep
    · simp only
      split
      · split
        · next hgood =>
            rw [ht, helloGood_iff] at hgood
            intro _
            rw [(say_written _ _).hellos, hgood]
            exact List.mem_append_right _ (List.mem_singleton_self _)
        · intro hauth
          rw [replyError, (reply_written _ _).authed] at hauth
          cases hauth
      · split
        · exact keep
        · next j _ _ op _ _ _ =>
            have hconn :=
              (dispatch_stands d env op j f.body { c with ran := c.ran ++ [op] }).conn
            intro hauth
            rw [hconn.authed] at hauth
            rw [hconn.hellos]
            exact hc hauth

/-- The gate itself: before the hello a frame is inert, unless it is a hello. -/
theorem handle_inert {d : Daemon P} {t : CStr} (hneed : d.needHello = true) {env : Env}
    {f : Frame} {c : Conn} (hc : Opened t c) (hhello : some t ∉ c.hellos)
    (hop : opOf f ≠ some (lit "hello")) : Inert d env f c := by
  have hauth : c.authed = false := by
    cases h : c.authed with
    | false => rfl
    | true => exact absurd (hc h) hhello
  unfold Inert handle
  split
  · exact ⟨rfl, (reply_written _ _).ran⟩
  · next j hj =>
      split
      · exact ⟨rfl, (reply_written _ _).ran⟩
      · next op hjop =>
          rw [opOf, Frame.field, hj] at hop
          have hne : op ≠ lit "hello" := fun h => hop (hjop.trans (congrArg some h))
          rw [if_neg hne, hneed, hauth]
          exact ⟨rfl, (reply_written _ _).ran⟩

/-- A hello with another token is inert and ends the connection. -/
theorem handle_bad_hello {d : Daemon P} {t : CStr} (ht : d.token = some t) {env : Env}
    {f : Frame} {c : Conn} (hop : opOf f = some (lit "hello")) (htok : tokenOf f ≠ some t) :
    Inert d env f c ∧ (handle d env f c).2.2 = false := by
  unfold Inert handle
  rw [opOf, Frame.field] at hop
  rw [tokenOf, Frame.field] at htok
  split
  · next hj =>
      rw [hj] at hop
      cases hop
  · next j hj =>
      rw [hj] at hop htok
      have hop : jsonStrdup (jsonGet j "op") = some (lit "hello") := hop
      have hgood : helloGood d.token (jsonStrdup (jsonGet j "token")) = false := by
        rw [ht, Bool.eq_false_iff, Ne, helloGood_iff]
        exact htok
      rw [hop]
      simp only [if_true, hgood, Bool.false_eq_true, if_false]
      exact ⟨⟨trivial, (reply_written _ _).ran⟩, trivial⟩

/-! ## Whole runs -/

/-- What every reachable state of a guarded daemon satisfies. -/
structure Guarded (t : CStr) (s : Server P) : Prop where
  token : s.d.token = some t
  needHello : s.d.needHello = true
  opened : ∀ k c, s.conns k = some c → Opened t c

theorem step_guarded {t : CStr} {s s' : Server P} {e : Event} (h : s.step e = some s')
    (hs : Guarded t s) : Guarded t s' := by
  cases e with
  | accept k life =>
      cases h
      refine ⟨hs.token, hs.needHello, fun k' c hc => ?_⟩
      simp only [Function.update_apply] at hc
      split at hc
      · cases hc
        exact fun hauth => by cases hauth
      · exact hs.opened k' c hc
  | malformed k =>
      obtain ⟨_, _, rfl⟩ := Option.map_eq_some_iff.mp h
      refine ⟨hs.token, hs.needHello, fun k' c hc => ?_⟩
      simp only [Function.update_apply] at hc
      split at hc
      · cases hc
      · exact hs.opened k' c hc
  | frame k f env =>
      obtain ⟨c₀, hc₀, rfl⟩ := Option.map_eq_some_iff.mp h
      obtain ⟨htok, hneed, _⟩ := handle_config s.d env f c₀
      refine ⟨htok.trans hs.token, hneed.trans hs.needHello, fun k' c hc => ?_⟩
      simp only [Function.update_apply] at hc
      split at hc
      · split at hc
        · cases hc
          exact handle_opened hs.token env f (hs.opened k c₀ hc₀)
        · cases hc
      · exact hs.opened k' c hc

theorem gated_of_needHello {d : Daemon P} {t : CStr} (ht : d.token = some t)
    (hneed : d.needHello = true) : Gated d := by
  refine ⟨t, ht, fun s hs k c hc env f => ?_⟩
  have hguard : Guarded t s := by
    refine hs.invariant (I := Guarded t) ?_ fun _ _ _ _ _ hstep hI => step_guarded hstep hI
    rintro _ rfl
    exact ⟨ht, hneed, fun k c hc => by cases hc⟩
  exact ⟨handle_inert hguard.needHello (hguard.opened k c hc),
    handle_bad_hello hguard.token⟩

/-- Without the flag the first frame of a connection runs its op. -/
theorem needHello_of_gated {d : Daemon P} (h : Gated d) : d.needHello = true := by
  obtain ⟨t, _, hgate⟩ := h
  by_contra hneed
  have hneed : d.needHello = false := Bool.eq_false_iff.mpr hneed
  have hreach : (Server.machine (· = started d)).Reach Machine.free
      { started d with conns := Function.update (started d).conns 0 (some {}) } :=
    .step (a := .accept 0 none) (.init rfl) trivial rfl
  obtain ⟨_, hran⟩ := (hgate _ hreach 0 {} rfl ⟨0, [], false⟩
    (request "info" [] {})).1 (by simp) (by decide)
  have hdisp : handle d ⟨0, [], false⟩ (request "info" [] {}) {} =
      dispatch d ⟨0, [], false⟩ (lit "info") ((lit "op", .str (lit "info")) :: []) {}
        { ran := [lit "info"] } := by
    unfold handle
    simp only [hneed, Bool.false_and, Bool.false_eq_true, if_false]
    rfl
  have hrun := (dispatch_stands d ⟨0, [], false⟩ (lit "info")
    [(lit "op", .str (lit "info"))] {} { ran := [lit "info"] }).conn.ran
  rw [← hdisp] at hrun
  exact List.cons_ne_nil _ _ (hrun.symm.trans hran)

/-! ## Startup -/

theorem accepted_token {os : OS} {args : List CStr} {a : Args}
    (h : accepted os args = some a) :
    parseArgs {} args = some a ∧ (offLoopback a.host = true → os.geistdToken.isSome) := by
  unfold accepted at h
  split at h
  · cases h
  · split at h
    · cases h
    · next b hparse =>
        split at h
        · cases h
        · split at h
          · cases h
          · split at h
            · cases h
            · split at h
              · cases h
              · next htok =>
                  cases h
                  refine ⟨hparse, fun hoff => ?_⟩
                  by_contra hnone
                  exact htok ⟨hoff, by simpa using hnone⟩

theorem startup_listener {os : OS} {args : List CStr} {load : Option (Loaded P)}
    {d : Daemon P} {l : Listener} (h : startup os args load = some (d, some l)) :
    ∃ a, accepted os args = some a ∧ listener os a = some l ∧
      d.token = os.geistdToken ∧ d.needHello = offLoopback a.host := by
  unfold startup at h
  split at h
  · cases h
  · next a ha =>
      split at h
      · next l' m hl =>
          cases h
          refine ⟨a, ha, ?_, rfl, rfl⟩
          split at hl
          · cases hl
          · simpa using hl
      · cases h

/-- `--host` names an address outside of loopback. -/
def HostNamed (args : List CStr) : Prop :=
  ∃ a host, parseArgs {} args = some a ∧ a.host = some host ∧
    host ≠ lit "127.0.0.1" ∧ host ≠ lit "localhost"

theorem offLoopback_iff {args : List CStr} {a : Args} (h : parseArgs {} args = some a) :
    offLoopback a.host = true ↔ HostNamed args := by
  constructor
  · intro hoff
    cases hhost : a.host with
    | none =>
        rw [hhost] at hoff
        cases hoff
    | some host =>
        rw [hhost, offLoopback, Option.any_some, Bool.and_eq_true, decide_eq_true_iff,
          decide_eq_true_iff] at hoff
        exact ⟨a, host, h, hhost, hoff.1, hoff.2⟩
  · rintro ⟨b, host, hb, hhost, hv4, hname⟩
    cases h.symm.trans hb
    rw [hhost]
    simp [offLoopback, hv4, hname]

/-- A socket that geistd bound itself off loopback has a host that says so:
`127.0.0.1` is loopback and `localhost` is no address. -/
theorem bound_host_named {os : OS} {args : List CStr} {a : Args} {l : Listener}
    (hparse : parseArgs {} args = some a) (hl : listener os a = some l)
    (hnone : netInheritedListener os = none) (hoff : l.offLoopback = true) :
    HostNamed args := by
  unfold listener at hl
  rw [hnone] at hl
  split at hl
  · next hinh => cases hinh
  · next host _ hhost =>
      unfold netBindTcp at hl
      split at hl
      · next addr hpton =>
          split at hl
          · cases hl
            refine ⟨a, host, hparse, hhost, ?_, ?_⟩
            · rintro rfl
              rw [show inetPton (lit "127.0.0.1") = some 2130706433 by decide] at hpton
              cases hpton
              exact absurd hoff (by decide)
            · rintro rfl
              rw [show inetPton (lit "localhost") = none by decide] at hpton
              cases hpton
          · cases hl
      · cases hl
  · unfold netBindUnix at hl
    split at hl
    · cases hl
      cases hoff
    · cases hl

/-- For an accepted configuration whose listening socket is TCP and reachable
from outside of loopback, the gate holds exactly when the socket was not
inherited or `--host` names an address outside of loopback all the same. -/
theorem startup_gated_iff {os : OS} {args : List CStr} {load : Option (Loaded P)}
    {d : Daemon P} {l : Listener} (h : startup os args load = some (d, some l))
    (hoff : l.offLoopback = true) :
    Gated d ↔ netInheritedListener os = none ∨ HostNamed args := by
  obtain ⟨a, ha, hl, htok, hneed⟩ := startup_listener h
  obtain ⟨hparse, hsome⟩ := accepted_token ha
  have hgated : Gated d ↔ HostNamed args := by
    rw [← offLoopback_iff hparse]
    constructor
    · intro hg
      rw [← hneed]
      exact needHello_of_gated hg
    · intro hon
      obtain ⟨t, ht⟩ := Option.isSome_iff_exists.mp (hsome hon)
      exact gated_of_needHello (htok.trans ht) (hneed.trans hon)
  rw [hgated]
  refine ⟨.inr, fun hor => hor.elim (fun hnone => ?_) id⟩
  exact bound_host_named hparse hl hnone hoff

/-- A model that has been loaded. -/
def plainLoaded : Loaded plain := ⟨(), -1, [], some (), 256⟩

/-- `geistd m --host 0.0.0.0 --port 7433` with a token of 32 characters. -/
def guardedArgs : List CStr :=
  [lit "m", lit "--host", lit "0.0.0.0", lit "--port", lit "7433"]

theorem startup_gated_iff_bound :
    ∃ d : Daemon plain, startup { geistdToken := some (List.replicate 32 65) } guardedArgs
      (some plainLoaded) = some (d, some (.inet 0)) ∧ Gated d := by
  have hstart : ∃ d : Daemon plain, startup { geistdToken := some (List.replicate 32 65) }
      guardedArgs (some plainLoaded) = some (d, some (.inet 0)) := ⟨_, rfl⟩
  obtain ⟨d, hd⟩ := hstart
  exact ⟨d, hd, (startup_gated_iff hd (by decide)).mpr (.inl (by decide))⟩

/-- An inherited listener on `0.0.0.0`, no `--host`, no token: the socket is
reachable from outside and no frame needs a hello. -/
theorem inherited_not_gated :
    ∃ d : Daemon plain, startup { listenFds := some (lit "1"), fd3 := some (.inet 0) }
      [lit "m"] (some plainLoaded) = some (d, some (.inet 0)) ∧
      (Listener.inet 0).offLoopback = true ∧ ¬ Gated d := by
  have hstart : ∃ d : Daemon plain,
      startup { listenFds := some (lit "1"), fd3 := some (.inet 0) } [lit "m"]
        (some plainLoaded) = some (d, some (.inet 0)) ∧ d.needHello = false := ⟨_, rfl, rfl⟩
  obtain ⟨d, hd, hneed⟩ := hstart
  refine ⟨d, hd, by decide, fun hg => ?_⟩
  rw [needHello_of_gated hg] at hneed
  cases hneed

end GeistServe.Proofs
