import Mathlib.Algebra.Order.Ring.Rat
import Mathlib.Data.Nat.Cast.Order.Ring
import Mathlib.Tactic.NormNum
import GeistServe.Proofs.ChatSend
import GeistServe.Proofs.ChatTable
import GeistServe.Proofs.HelloGate

/-!
# The resident conversation is what the daemon holds

`Good w` says that the app's list and the daemon's chat are the same
conversation, if the daemon that the app's chat belongs to still runs and still
knows it. Events and calls that do not name the chat keep it (`rpc_good`), a
rewind and a send move both copies alike (`rewind_spec`, `send_spec`), and when
a call loses track it ends with a code that has the daemon restarted at a path
that is not the held one.
-/

namespace GeistServe.Proofs

open GeistServe.Lib GeistServe.Geistd GeistServe.App

variable {P : Platform}

/-! ## The invariant -/

/-- The running daemon: its path is a used one, it needs no hello, its ids are
unique, and where a chat lives the chat ops do. -/
structure DaemonOk (used : List CStr) (p : CStr) (d : Daemon P) : Prop where
  used : p ∈ used
  needHello : d.needHello = false
  unique : UniqueIds d.chats
  api : ∀ i x, slot d.chats i = some x → d.rt.isSome

/-- What holds whatever became of a call. -/
structure Sound (w : World P) : Prop where
  daemon : ∀ p d, w.daemon = some (p, d) → DaemonOk w.used p d
  path : w.held.id.isSome → w.held.path ∈ w.used

/-- The chats with the id hold these turns. -/
def HoldsIn (chats : List (Option (Chat P.R))) (id : CStr) (ts : List Turn) : Prop :=
  ∀ i x, slot chats i = some x → x.id = id → P.R.drops x.c = false ∧ P.R.conv x.c = ts

/-- The held chat, where it is live, holds what the app believes. -/
def Mirrors (w : World P) : Prop :=
  ∀ p d id, w.daemon = some (p, d) → w.held.path = p → w.held.id = some id →
    HoldsIn d.chats id (w.held.turns.map Msg.turn)

structure Good (w : World P) : Prop where
  sound : Sound w
  mirrors : Mirrors w

theorem Good.of_forgotten {w : World P} (h : Sound w) (hid : w.held.id = none) : Good w :=
  ⟨h, fun _ _ _ _ _ hid' => by rw [hid] at hid'; cases hid'⟩

theorem HoldsIn.of_slot {chats : List (Option (Chat P.R))} {i : Nat} {x : Chat P.R}
    {ts : List Turn} (hu : UniqueIds chats) (hx : slot chats i = some x)
    (hd : P.R.drops x.c = false) (hc : P.R.conv x.c = ts) : HoldsIn chats x.id ts := by
  intro j y hy hid
  have hij := hu j i y x hy hx hid
  rw [hij, hx] at hy
  cases hy
  exact ⟨hd, hc⟩

/-- A frame that names another chat leaves ours alone. -/
theorem HoldsIn.turns {named : Option CStr} {newId id : CStr} {new : Prop}
    {chats chats' : List (Option (Chat P.R))} {ts : List Turn} (h : HoldsIn chats id ts)
    (hturns : ChatTurns named newId new chats chats') (hnamed : named ≠ some id)
    (hnew : new → newId ≠ id) : HoldsIn chats' id ts := by
  obtain ⟨k, hturn⟩ := hturns
  intro i y hy hid
  rcases (hy ▸ hturn i).back with ⟨⟨hn, _⟩, hyid⟩ | ⟨x, hx, hyid, hc⟩
  · exact absurd (hyid.symm.trans hid) (hnew hn)
  · have hxid := hyid.symm.trans hid
    rcases hc with hc | hc
    · exact absurd (hc.trans (congrArg some hxid)) hnamed
    · rw [hc]
      exact h i x hx hxid

/-! ## Frames and events -/

theorem newIdFree_open {w : World P} {d : Daemon P} {env : Env} {f : Frame}
    (h : newIdFree w d env f = true) (hop : opOf f = some (lit "chat_open")) :
    w.held.id ≠ some env.newId ∧ ∀ i x, slot d.chats i = some x → x.id ≠ env.newId := by
  simp only [newIdFree, hop, ne_eq, not_true_eq_false, decide_false, Bool.false_or,
    Bool.and_eq_true, decide_eq_true_eq, List.all_eq_true] at h
  refine ⟨h.1, fun i x hx => ?_⟩
  have hlt := slot_lt hx
  rw [slot, List.getElem?_eq_getElem hlt, Option.join_some] at hx
  have := h.2 _ (List.getElem_mem hlt)
  rw [hx] at this
  simpa using this

/-- One frame to the daemon, from whoever. -/
theorem frame_sound {w : World P} {p : CStr} {d : Daemon P} {env : Env} {f : Frame}
    {c : Conn} (h : Sound w) (hd : w.daemon = some (p, d))
    (hfree : newIdFree w d env f = true) :
    Sound { w with daemon := some (p, (handle d env f c).1) } := by
  refine ⟨fun p' d' hd' => ?_, h.path⟩
  cases hd'
  obtain ⟨hused, hneed, hu, hapi⟩ := h.daemon p d hd
  obtain ⟨_, hneed', hrt⟩ := handle_config d env f c
  have hturns := handle_chats d env f c
  refine ⟨hused, hneed'.trans hneed,
    hturns.unique hu fun hop => (newIdFree_open hfree hop.1).2, fun i y hy => ?_⟩
  obtain ⟨k, hturn⟩ := hturns
  rcases (hy ▸ hturn i).back with ⟨⟨hop, _⟩, _⟩ | ⟨x, hx, _⟩
  · exact hop.2
  · exact hrt (hapi i x hx)

theorem frame_good {w : World P} {p : CStr} {d : Daemon P} {env : Env} {f : Frame}
    {c : Conn} (h : Good w) (hd : w.daemon = some (p, d))
    (hfree : newIdFree w d env f = true) (hname : w.held.id.isSome → chatOf f ≠ w.held.id) :
    Good { w with daemon := some (p, (handle d env f c).1) } := by
  refine ⟨frame_sound h.sound hd hfree, fun p' d' id hd' hp hid => ?_⟩
  cases hd'
  refine (h.mirrors p d id hd hp hid).turns (handle_chats d env f c) ?_ fun hop hnew => ?_
  · rw [← hid]
    exact hname (by rw [hid]; rfl)
  · exact (newIdFree_open hfree hop.1).1 (hid.trans (congrArg some hnew.symm))

theorem fresh_slot (d : Daemon P) (i : Nat) : slot (freshDaemon d).chats i = none :=
  slot_map _ _ _ rfl

theorem applyEvent_good {w : World P} (h : Good w) (e : DaemonEvent P) :
    Good (applyEvent w e) ∧ (applyEvent w e).held = w.held := by
  cases e with
  | other env f life =>
      unfold applyEvent
      simp only
      split
      · next p d hd =>
          split
          · next hguard => exact ⟨frame_good h hd hguard.1 hguard.2, rfl⟩
          · exact ⟨h, rfl⟩
      · exact ⟨h, rfl⟩
  | evict i =>
      refine ⟨⟨⟨fun p' d' hd' => ?_, h.sound.path⟩,
        fun p' d' id hd' hp hid j x hx hxid => ?_⟩, rfl⟩
      · obtain ⟨⟨p, d⟩, hd, hpair⟩ := Option.map_eq_some_iff.mp hd'
        cases hpair
        obtain ⟨hused, hneed, hu, hapi⟩ := h.sound.daemon p d hd
        have hleft : ∀ j x, slot (d.chats.set i none) j = some x → slot d.chats j = some x := by
          intro j x hx
          rw [slot_set] at hx
          split at hx
          · split at hx <;> cases hx
          · exact hx
        exact ⟨hused, hneed, fun a b x y hx hy => hu a b x y (hleft a x hx) (hleft b y hy),
          fun j x hx => hapi j x (hleft j x hx)⟩
      · obtain ⟨⟨p, d⟩, hd, hpair⟩ := Option.map_eq_some_iff.mp hd'
        cases hpair
        rw [slot_set] at hx
        split at hx
        · split at hx <;> cases hx
        · exact h.mirrors p d id hd hp hid j x hx hxid
  | stop =>
      exact ⟨⟨⟨fun _ _ hd => (by cases hd), h.sound.path⟩, fun _ _ _ hd => by cases hd⟩, rfl⟩
  | restart path d =>
      unfold applyEvent
      simp only
      split
      · exact ⟨h, rfl⟩
      · refine ⟨⟨⟨fun p' d' hd' => ?_, fun hid => ?_⟩, fun p' d' id hd' _ _ i x hx => ?_⟩,
          rfl⟩
        · cases hd'
          refine ⟨List.mem_cons_self, rfl, fun i j x y hx => ?_, fun i x hx => ?_⟩
          · rw [fresh_slot] at hx
            cases hx
          · rw [fresh_slot] at hx
            cases hx
        · exact List.mem_cons_of_mem _ (h.sound.path hid)
        · cases hd'
          rw [fresh_slot] at hx
          cases hx

theorem applyEvents_good (es : List (DaemonEvent P)) : ∀ {w : World P}, Good w →
    Good (es.foldl applyEvent w) ∧ (es.foldl applyEvent w).held = w.held := by
  induction es with
  | nil => exact fun h => ⟨h, rfl⟩
  | cons e es ih =>
      intro w h
      obtain ⟨hgood, hheld⟩ := applyEvent_good h e
      obtain ⟨hgood', hheld'⟩ := ih hgood
      exact ⟨hgood', hheld'.trans hheld⟩

/-! ## Client calls -/

/-- A call is its events and then, if the request arrives, one frame. -/
theorem rpc_cases {w w' : World P} {path : CStr} {ft : Fate P} {f : Frame} {heard : Heard}
    (h : rpc w path ft f = (w', heard)) (hg : Good w) :
    ∃ w₀, Good w₀ ∧ w₀.held = w.held ∧
      ((w' = w₀ ∧ heard = {}) ∨
        ∃ d, w₀.daemon = some (path, d) ∧ newIdFree w₀ d ft.env f = true ∧
          w' = { w₀ with daemon := some (path, (handle d ft.env f { life := ft.life }).1) } ∧
          heard = ⟨(handle d ft.env f { life := ft.life }).2.1.sent.take ft.seen,
            (handle d ft.env f { life := ft.life }).2.1.asked⟩) := by
  obtain ⟨hgood, hheld⟩ := applyEvents_good ft.before hg
  unfold rpc at h
  simp only at h
  split at h
  · next p d hd =>
      split at h
      · next hguard =>
          obtain ⟨rfl, _, hfree⟩ := hguard
          simp only [Prod.mk.injEq] at h
          exact ⟨_, hgood, hheld, .inr ⟨d, hd, hfree, h.1.symm, h.2.symm⟩⟩
      · simp only [Prod.mk.injEq] at h
        exact ⟨_, hgood, hheld, .inl ⟨h.1.symm, h.2.symm⟩⟩
  · simp only [Prod.mk.injEq] at h
    exact ⟨_, hgood, hheld, .inl ⟨h.1.symm, h.2.symm⟩⟩

theorem rpc_sound {w w' : World P} {path : CStr} {ft : Fate P} {f : Frame} {heard : Heard}
    (h : rpc w path ft f = (w', heard)) (hg : Good w) : Sound w' ∧ w'.held = w.held := by
  obtain ⟨w₀, hg₀, hheld, ⟨rfl, _⟩ | ⟨d, hd, hfree, rfl, _⟩⟩ := rpc_cases h hg
  · exact ⟨hg₀.sound, hheld⟩
  · exact ⟨frame_sound hg₀.sound hd hfree, hheld⟩

/-- A call that does not name the held chat. -/
theorem rpc_good {w w' : World P} {path : CStr} {ft : Fate P} {f : Frame} {heard : Heard}
    (h : rpc w path ft f = (w', heard)) (hg : Good w)
    (hname : w.held.id.isSome → chatOf f ≠ w.held.id) : Good w' ∧ w'.held = w.held := by
  obtain ⟨w₀, hg₀, hheld, ⟨rfl, _⟩ | ⟨d, hd, hfree, rfl, _⟩⟩ := rpc_cases h hg
  · exact ⟨hg₀, hheld⟩
  · exact ⟨frame_good hg₀ hd hfree (by rw [hheld]; exact hname), hheld⟩

/-! ## The app's own chat frames -/

/-- A chat op of the app on its own daemon goes straight to `chatOp`. -/
theorem handle_chatOp {d : Daemon P} (hneed : d.needHello = false) {env : Env} {f : Frame}
    {c : Conn} {j : Json} {op : CStr} (hj : f.hdr = some j)
    (hop : jsonStrdup (jsonGet j "op") = some op)
    (hsess : jsonStrdup (jsonGet j "session") = none)
    (hmem : op = lit "chat_open" ∨ op = lit "chat_send" ∨ op = lit "chat_rewind") :
    handle d env f c = d.chatOp env op j f.body { c with ran := c.ran ++ [op] } := by
  have hne : op ≠ lit "hello" := by
    rcases hmem with rfl | rfl | rfl <;> decide
  unfold handle
  rw [hj]
  simp only [hop, if_neg hne, hneed, Bool.false_and, Bool.false_eq_true, if_false]
  unfold dispatch
  rw [hsess]
  rcases hmem with rfl | rfl | rfl <;> rfl

theorem heard_head {fs : List Reply} {n : Nat} {r : Reply} (h : (fs.take n).head? = some r) :
    fs.head? = some r := by
  cases n with
  | zero => cases h
  | succ n =>
      cases fs with
      | nil => cases h
      | cons x xs => exact h

/-- What a single reply can be heard as. -/
theorem say_heard {dr : Daemon P × Reply} {c : Conn} {r : Reply} {n : Nat}
    (hc : c.sent = []) (hr : ((Daemon.say c dr).2.1.sent.take n).head? = some r) :
    r = dr.2 := by
  have hhead := heard_head hr
  rcases (reply_cases c dr.2).1 with ⟨_, hs⟩ | ⟨_, hs⟩
  · rw [Daemon.say, hs, hc] at hhead
    cases hhead
  · rw [Daemon.say, hs, hc] at hhead
    exact (Option.some.inj hhead).symm

/-- A good answer is the first frame, and no error. -/
theorem answer_good {h : Heard} {r : Reply} (ha : h.answer = .good r) :
    h.frames.head? = some r ∧ ∀ m, r ≠ .error m := by
  unfold Heard.answer at ha
  split at ha
  · cases ha
  · cases ha
  · cases ha
  · next herr _ hr =>
      cases ha
      exact ⟨hr, herr⟩

/-! ## chat_open -/

/-- A chat that was opened to refuse overflow starts empty. -/
theorem opChatOpen_holds [LawfulRuntime P.R] {now n : Nat} {newId id : CStr}
    {rt rt' : Option P.R.Model} {chats chats' : List (Option (Chat P.R))} {j : Json}
    (hover : jsonStrdup (jsonGet j "overflow") = none)
    (hfresh : ∀ i x, slot chats i = some x → x.id ≠ newId)
    (h : opChatOpen now newId rt chats j = (rt', chats', .chat n id)) :
    id = newId ∧ HoldsIn chats' newId [] := by
  unfold opChatOpen at h
  split at h
  · cases h
  · next m =>
      simp only at h
      split at h
      · cases h
      · split at h
        · cases h
        · next m' c hopen =>
            cases h
            obtain ⟨hconv, hdrops⟩ := LawfulRuntime.open_new m _ m' c hopen
            refine ⟨rfl, fun i x hx hid => ?_⟩
            rw [slot_set] at hx
            split at hx
            · split at hx
              · cases hx
                refine ⟨hdrops.trans ?_, hconv⟩
                simp only [chatOptions, hover]
                decide
              · cases hx
            · exact absurd hid (hfresh i x hx)

theorem chatOp_open {d : Daemon P} {env : Env} {j : Json} {body : Body} {c : Conn}
    (hname : jsonStrdup (jsonGet j "chat") = none) :
    d.chatOp env (lit "chat_open") j body c =
      let res := opChatOpen env.now env.newId d.rt d.chats j
      Daemon.say c ({ d with rt := res.1, chats := res.2.1 }, res.2.2) := by
  unfold Daemon.chatOp
  rw [hname]
  rfl

/-- What the app knows after a `chat_open` whose reply it read. -/
theorem open_spec [LawfulRuntime P.R] {w w' : World P} {path format id : CStr}
    {ft : Fate P} {t p : Double} {heard : Heard} {n : Nat} (hg : Good w)
    (h : rpc w path ft (openFrame P t p format) = (w', heard))
    (ha : heard.answer = .good (.chat n id)) :
    path ∈ w'.used ∧ ∀ p' d', w'.daemon = some (p', d') → HoldsIn d'.chats id [] := by
  obtain ⟨hhead, _⟩ := answer_good ha
  obtain ⟨w₀, hg₀, _, ⟨rfl, rfl⟩ | ⟨d, hd, hfree, rfl, rfl⟩⟩ := rpc_cases h hg
  · cases hhead
  · obtain ⟨hused, hneed, _, _⟩ := hg₀.sound.daemon path d hd
    refine ⟨hused, fun p' d' hd' => ?_⟩
    cases hd'
    -- A header that is no JSON cannot have been answered with a chat.
    have hframe : (openFrame P t p format).hdr ≠ none := by
      intro hnone
      have hh : handle d ft.env (openFrame P t p format) { life := ft.life } =
          Daemon.say { life := ft.life } (d, .error (lit "header is not a JSON object")) := by
        unfold handle
        rw [hnone]
      simp only [hh] at hhead
      cases say_heard rfl hhead
    obtain ⟨tv, pv, hj⟩ : ∃ tv pv, (openFrame P t p format).hdr =
        some [(lit "op", .str (lit "chat_open")), (lit "temperature", tv),
          (lit "top_p", pv), (lit "reasoning", .str format), (lit "thinking", .bool true)] := by
      cases ht : P.printG t with
      | none => exact absurd (by simp [openFrame, ht]) hframe
      | some tv =>
          cases hp : P.printG p with
          | none => exact absurd (by simp [openFrame, ht, hp]) hframe
          | some pv => exact ⟨tv, pv, by simp [openFrame, ht, hp]⟩
    have hop : opOf (openFrame P t p format) = some (lit "chat_open") := by
      rw [opOf, Frame.field, hj]
      rfl
    obtain ⟨_, hfresh⟩ := newIdFree_open hfree hop
    rw [handle_chatOp hneed hj rfl rfl (.inl rfl), chatOp_open rfl] at hhead ⊢
    generalize hres : opChatOpen _ _ _ _ _ = res at hhead ⊢
    obtain ⟨rt, chats, r⟩ := res
    cases say_heard rfl hhead
    obtain ⟨rfl, hholds⟩ := opChatOpen_holds rfl hfresh hres
    exact hholds

/-! ## The op on a chat that is named -/

theorem clamp_nat {k : Nat} {dflt : Double} {hi : Rat} (hk : (k : Rat) ≤ hi) :
    jsonClamp (some (.num (.fin k))) dflt (.fin 0) (.fin hi) = (.fin k, false) := by
  have hlo : ¬ ((k : Rat) < 0) := not_lt.mpr (Nat.cast_nonneg k)
  simp only [jsonClamp, jsonNum, Double.lt, decide_eq_true_eq, if_neg hlo,
    if_neg (not_lt.mpr hk)]

theorem castSize_nat {k : Nat} (hk : k < 2 ^ 64) : P.castSize (.fin k) = k := by
  have h0 : (-1 : Rat) < k := lt_of_lt_of_le neg_one_lt_zero (Nat.cast_nonneg k)
  have h1 : (k : Rat) < 2 ^ 64 := by exact_mod_cast hk
  have hfloor : (k : Rat).floor = k := by simpa using Rat.floor_intCast (k : Int)
  simp only [Platform.castSize, Double.toSize, if_pos (And.intro h0 h1), Option.getD_some,
    hfloor]
  rfl

/-- The daemon with the new time of use, when it knows the chat. -/
theorem findChat_some {d : Daemon P} (env : Env) {id : CStr} {i : Nat} {x : Chat P.R}
    (hfind : chatFind d.chats (some id) = some i) (hx : slot d.chats i = some x) :
    (d.findChat env (some id)).2 = some i ∧
      slot (d.findChat env (some id)).1.chats i = some { x with used := env.now } := by
  unfold Daemon.findChat
  rw [hfind]
  refine ⟨rfl, ?_⟩
  simp only
  rw [slot_modify, if_pos rfl, hx]
  rfl

theorem findChat_none {d : Daemon P} {env : Env} {id : CStr}
    (hfind : chatFind d.chats (some id) = none) : d.findChat env (some id) = (d, none) := by
  unfold Daemon.findChat
  rw [hfind]

/-- `chat_rewind` on a chat the daemon does not know. -/
theorem chatOp_rewind_unknown {d : Daemon P} {env : Env} {j : Json} {body : Body} {c : Conn}
    {id : CStr} (hname : jsonStrdup (jsonGet j "chat") = some id)
    (hfind : chatFind d.chats (some id) = none) :
    d.chatOp env (lit "chat_rewind") j body c =
      Daemon.say c (d, .error (lit "unknown chat")) := by
  unfold Daemon.chatOp
  rw [hname, findChat_none hfind]
  rfl

/-- `chat_rewind` on a chat the daemon knows. -/
theorem chatOp_rewind {d : Daemon P} (env : Env) {j : Json} (body : Body) {c : Conn}
    {id : CStr} {i : Nat} {x : Chat P.R} (hname : jsonStrdup (jsonGet j "chat") = some id)
    (hfind : chatFind d.chats (some id) = some i) (hx : slot d.chats i = some x) :
    let res := opChatRewind P j x.c
    ∃ d', d.chatOp env (lit "chat_rewind") j body c = Daemon.say c (d', res.2) ∧
      slot d'.chats i = some ⟨x.id, res.1, env.now⟩ := by
  obtain ⟨hi, hslot⟩ := findChat_some env hfind hx
  unfold Daemon.chatOp
  rw [hname]
  simp only [hi, Option.bind_some, hslot, Option.map_some]
  refine ⟨_, rfl, ?_⟩
  rw [slot_set_live hslot, if_pos rfl]

theorem opChatRewind_good [LawfulRuntime P.R] {j : Json} {x : P.R.Chat} {keep : Nat}
    (hget : jsonGet j "keep" = some (.num (.fin keep))) (hkeep : keep ≤ APP_CHAT_MESSAGES)
    (hgood : ∀ m, (opChatRewind P j x).2 ≠ .error m) :
    P.R.conv (opChatRewind P j x).1 = (P.R.conv x).take keep ∧
      P.R.drops (opChatRewind P j x).1 = P.R.drops x := by
  have hle : (keep : Rat) ≤ 10 ^ 9 := by
    have : (keep : Rat) ≤ (64 : Nat) := Nat.cast_le.mpr hkeep
    exact this.trans (by norm_num)
  have hlt : keep < 2 ^ 64 := hkeep.trans_lt (by decide)
  unfold opChatRewind at hgood ⊢
  simp only [hget, clamp_nat hle, castSize_nat hlt, Bool.false_eq_true, if_false] at hgood ⊢
  split at hgood
  · exact absurd rfl (hgood _)
  · next y hy => exact LawfulRuntime.rewind_conv x keep y hy

/-- The app's rewind frame, when the daemon knows the chat. -/
theorem handle_rewind [LawfulRuntime P.R] {d : Daemon P} (env : Env) (life : Option Nat)
    {id : CStr} {keep i : Nat} {x : Chat P.R} (hneed : d.needHello = false)
    (hfind : chatFind d.chats (some id) = some i) (hx : slot d.chats i = some x)
    (hkeep : keep ≤ APP_CHAT_MESSAGES) :
    ∃ d' y r c, handle d env (rewindFrame id keep) { life := life } = Daemon.say c (d', r) ∧
      c.sent = [] ∧ slot d'.chats i = some ⟨x.id, y, env.now⟩ ∧
      ((∀ m, r ≠ .error m) →
        P.R.conv y = (P.R.conv x.c).take keep ∧ P.R.drops y = P.R.drops x.c) := by
  obtain ⟨d', hop, hslot⟩ := chatOp_rewind env {}
    (c := { life := life, ran := [lit "chat_rewind"] })
    (j := [(lit "op", .str (lit "chat_rewind")), (lit "chat", .str id),
      (lit "keep", .num (.fin keep))]) rfl hfind hx
  have hhandle : handle d env (rewindFrame id keep) { life := life } = _ :=
    handle_chatOp hneed rfl rfl rfl (.inr (.inr rfl))
  exact ⟨d', _, _, _, hhandle.trans hop, rfl, hslot, opChatRewind_good rfl hkeep⟩

/-- What the app knows after a rewind that was answered well. -/
theorem rewind_spec [LawfulRuntime P.R] {w w' : World P} {path id : CStr} {ft : Fate P}
    {keep : Nat} {heard : Heard} {r : Reply} (hg : Good w) (hid : w.held.id = some id)
    (hpath : w.held.path = path) (hkeep : keep ≤ APP_CHAT_MESSAGES)
    (h : rpc w path ft (rewindFrame id keep) = (w', heard)) (ha : heard.answer = .good r) :
    Good { w' with held := heldKeep w'.held keep } := by
  obtain ⟨hsound, hheld⟩ := rpc_sound h hg
  refine ⟨⟨hsound.daemon, hsound.path⟩, fun p' d' id' hd' _ hid' => ?_⟩
  have hid' : w'.held.id = some id' := hid'
  rw [hheld, hid] at hid'
  cases hid'
  obtain ⟨hhead, hnoerr⟩ := answer_good ha
  obtain ⟨w₀, hg₀, hheld₀, ⟨rfl, rfl⟩ | ⟨d, hd, hfree, rfl, rfl⟩⟩ := rpc_cases h hg
  · cases hhead
  · obtain ⟨_, hneed, _, _⟩ := hg₀.sound.daemon path d hd
    have hu := (hsound.daemon p' d' hd').unique
    cases hd'
    have hholds := hg₀.mirrors path d id hd (by rw [hheld₀]; exact hpath)
      (by rw [hheld₀]; exact hid)
    cases hfind : chatFind d.chats (some id) with
    | none =>
        have hhandle : handle d ft.env (rewindFrame id keep) { life := ft.life } = _ :=
          handle_chatOp hneed rfl rfl rfl (.inr (.inr rfl))
        rw [hhandle, chatOp_rewind_unknown rfl hfind] at hhead
        exact absurd (say_heard rfl hhead) (hnoerr _)
    | some i =>
        obtain ⟨x, hx, hname⟩ := chatFind_slot hfind
        cases hname
        obtain ⟨d', y, r', c, hhandle, hc, hslot, hgood⟩ :=
          handle_rewind ft.env ft.life hneed hfind hx hkeep
        rw [hhandle] at hhead hu ⊢
        cases say_heard hc hhead
        obtain ⟨hdrops, hconv⟩ := hholds i x hx rfl
        obtain ⟨hyconv, hydrops⟩ := hgood hnoerr
        refine HoldsIn.of_slot (x := ⟨x.id, y, ft.env.now⟩) hu hslot (hydrops.trans hdrops) ?_
        rw [hyconv, hconv, heldKeep, List.map_take]

/-! ## chat_send -/

/-- `chat_send` on a chat the daemon does not know. -/
theorem chatOp_send_unknown {d : Daemon P} {env : Env} {j : Json} {body : Body} {c : Conn}
    {id : CStr} (hname : jsonStrdup (jsonGet j "chat") = some id)
    (hfind : chatFind d.chats (some id) = none) :
    d.chatOp env (lit "chat_send") j body c =
      Daemon.say c (d, .error (lit "chat_send: unknown chat")) := by
  unfold Daemon.chatOp
  rw [hname, findChat_none hfind]
  rfl

/-- `chat_send` on a chat the daemon knows. -/
theorem chatOp_send {d : Daemon P} (env : Env) {j : Json} (body : Body) {c : Conn}
    {id : CStr} {i : Nat} {x : Chat P.R} (hname : jsonStrdup (jsonGet j "chat") = some id)
    (hfind : chatFind d.chats (some id) = some i) (hx : slot d.chats i = some x) :
    ∃ d', slot d'.chats i = some ⟨x.id, (opChatSend P env.oom j body x.c c).1, env.now⟩ ∧
      d.chatOp env (lit "chat_send") j body c =
        (d', (opChatSend P env.oom j body x.c c).2) := by
  obtain ⟨hi, hslot⟩ := findChat_some env hfind hx
  unfold Daemon.chatOp
  rw [hname]
  simp only [hi, Option.bind_some, hslot, Option.map_some]
  refine ⟨_, ?_, rfl⟩
  simp only
  rw [slot_set_live hslot, if_pos rfl]

/-- The app's send frame, when the daemon knows the chat. -/
theorem handle_send [LawfulRuntime P.R] {d : Daemon P} (env : Env) (life : Option Nat)
    {id : CStr} (max : Nat) {i : Nat} {ms : List Msg} {x : Chat P.R} (hneed : d.needHello = false)
    (hfind : chatFind d.chats (some id) = some i) (hx : slot d.chats i = some x)
    (hne : ms ≠ []) (hdrops : P.R.drops x.c = false) :
    ∃ d' y c ok, handle d env (sendFrame id max ms) { life := life } = (d', c, ok) ∧
      slot d'.chats i = some ⟨x.id, y, env.now⟩ ∧ SentOk ms x.c y c.sent c.asked := by
  obtain ⟨d', hslot, hop⟩ := chatOp_send env (sendFrame id max ms).body
    (c := { life := life, ran := [lit "chat_send"] })
    (j := [(lit "op", .str (lit "chat_send")), (lit "chat", .str id),
      (lit "max", .num (.fin max))]) rfl hfind hx
  have hhandle : handle d env (sendFrame id max ms) { life := life } = _ :=
    handle_chatOp hneed rfl rfl rfl (.inr (.inl rfl))
  generalize hsend : opChatSend P env.oom _ _ x.c _ = res at hslot hop
  obtain ⟨y, c, ok⟩ := res
  refine ⟨d', y, c, ok, hhandle.trans hop, hslot, ?_⟩
  exact opChatSend_frames hne rfl rfl rfl hdrops hsend

/-- What the app may conclude from how a send ended: the two copies moved
together, or the daemon does not know the chat, or it refused and kept it. -/
structure SendSays (w w' : World P) (id : CStr) (ms : List Msg) (asked : List (List Turn))
    (parts : List (Bool × CStr)) (e : SendEnd) : Prop where
  done : ∀ st, e = .done st →
    asked = [w.held.turns.map Msg.turn ++ ms.map Msg.turn] ∧
      (∃ d i x, w'.daemon = some (w.held.path, d) ∧ slot d.chats i = some x ∧ x.id = id) ∧
      ∀ p d, w'.daemon = some (p, d) → HoldsIn d.chats id
        (w.held.turns.map Msg.turn ++ ms.map Msg.turn ++ [⟨.assistant, answerText parts⟩])
  refused : ∀ s m, e = .refused s m →
    (strstr m (lit "unknown chat") = true ∧ parts = []) ∨
      (strstr m (lit "unknown chat") = false ∧ (s = lit "context" → Good w'))

theorem SendSays.of_lost {w w' : World P} {id : CStr} {ms : List Msg}
    {asked : List (List Turn)} {parts : List (Bool × CStr)} :
    SendSays w w' id ms asked parts .lost :=
  ⟨fun _ h => (by cases h), fun _ _ h => by cases h⟩

theorem send_spec [LawfulRuntime P.R] {w w' : World P} {path id : CStr} {ft : Fate P}
    {max : Nat} {ms : List Msg} {heard : Heard} {part : Nat → PartFate}
    {parts : List (Bool × CStr)} {e : SendEnd} (hg : Good w) (hid : w.held.id = some id)
    (hpath : w.held.path = path) (hne : ms ≠ [])
    (h : rpc w path ft (sendFrame id max ms) = (w', heard))
    (hread : readAnswer part 0 heard.frames [] = (parts, e)) :
    SendSays w w' id ms heard.asked parts e := by
  obtain ⟨hsound, hheld⟩ := rpc_sound h hg
  obtain ⟨w₀, hg₀, hheld₀, ⟨rfl, rfl⟩ | ⟨d, hd, hfree, rfl, rfl⟩⟩ := rpc_cases h hg
  · cases hread
    exact .of_lost
  · obtain ⟨_, hneed, _, _⟩ := hg₀.sound.daemon path d hd
    have hholds := hg₀.mirrors path d id hd (by rw [hheld₀]; exact hpath)
      (by rw [hheld₀]; exact hid)
    rw [hheld₀] at hholds
    have hu := (hsound.daemon _ _ rfl).unique
    cases hfind : chatFind d.chats (some id) with
    | none =>
        have hhandle : handle d ft.env (sendFrame id max ms) { life := ft.life } = _ :=
          handle_chatOp hneed rfl rfl rfl (.inr (.inl rfl))
        rw [hhandle, chatOp_send_unknown rfl hfind, Daemon.say] at hread
        simp only at hread
        have hsent := (reply_cases { life := ft.life, ran := [] ++ [lit "chat_send"] }
          (.error (lit "chat_send: unknown chat"))).1
        generalize hseen : ft.seen = seen at hread
        rcases hsent with ⟨_, hs⟩ | ⟨_, hs⟩
        · rw [hs, List.take_nil] at hread
          cases hread
          exact .of_lost
        · rw [hs] at hread
          cases seen with
          | zero =>
              cases hread
              exact .of_lost
          | succ seen =>
              cases hread
              refine ⟨fun _ h => (by cases h), fun s m hm => .inl ?_⟩
              cases hm
              exact ⟨by decide, rfl⟩
    | some i =>
        obtain ⟨x, hx, hname⟩ := chatFind_slot hfind
        cases hname
        obtain ⟨hdrops, hconv⟩ := hholds i x hx rfl
        obtain ⟨d', y, c, ok, hhandle, hslot, hok⟩ :=
          handle_send ft.env ft.life max hneed hfind hx hne hdrops
        rw [hhandle] at hread hu hsound ⊢
        obtain ⟨hdone, hrefused⟩ := readAnswer_sent hok hread
        rw [hconv] at hdone hrefused
        refine ⟨fun st hst => ?_, fun s m hm => .inr ?_⟩
        · obtain ⟨hasked, hyconv, hydrops⟩ := hdone st hst
          refine ⟨hasked, ⟨d', i, _, by rw [hpath], hslot, rfl⟩, fun p' d'' hd'' => ?_⟩
          cases hd''
          exact HoldsIn.of_slot (x := ⟨x.id, y, ft.env.now⟩) hu hslot hydrops hyconv
        · obtain ⟨hwhy, hkept⟩ := hrefused s m hm
          refine ⟨hwhy, fun hctx => ⟨hsound, fun p' d'' id' hd'' _ hid' => ?_⟩⟩
          obtain ⟨hyconv, hydrops⟩ := hkept hctx
          cases hd''
          have hid' : w₀.held.id = some id' := hid'
          rw [hheld₀, hid] at hid'
          cases hid'
          simp only [hheld₀]
          exact HoldsIn.of_slot (x := ⟨x.id, y, ft.env.now⟩) hu hslot hydrops hyconv

/-! ## The mirror's own steps -/

/-- `same_role` is the test for the same role of a chat. -/
theorem sameRole_iff {a b : CStr} : sameRole a b = true ↔ roleOf a = roleOf b := by
  have hne : lit "system" ≠ lit "assistant" := by decide
  unfold sameRole roleOf
  by_cases ha : a = lit "system"
  · by_cases hb : b = lit "system"
    · simp [ha, hb]
    · by_cases hb' : b = lit "assistant" <;> simp [ha, hb, hb', hne.symm]
  · by_cases ha' : a = lit "assistant"
    · by_cases hb : b = lit "system"
      · simp [ha', hb, hne, hne.symm]
      · by_cases hb' : b = lit "assistant" <;> simp [ha', hb, hb', hne.symm]
    · by_cases hb : b = lit "system"
      · simp [ha, ha', hb]
      · by_cases hb' : b = lit "assistant" <;> simp [ha, ha', hb, hb', hne.symm]

theorem sameMsg_iff {a b : Msg} : sameMsg a b = true ↔ a.turn = b.turn := by
  simp only [sameMsg, Bool.and_eq_true, sameRole_iff, decide_eq_true_eq, Msg.turn,
    Turn.mk.injEq]

/-- The common start, to a chat. -/
theorem common_start (ts ms : List Msg) (n : Nat) :
    let k := agree sameMsg ts (ms.take n)
    k ≤ ts.length ∧ k ≤ n ∧ (ts.take k).map Msg.turn = (ms.take k).map Msg.turn := by
  intro k
  have hle : k ≤ (ms.take n).length := agree_le_right sameMsg ts (ms.take n)
  have hn : k ≤ n := by
    rw [List.length_take] at hle
    omega
  refine ⟨agree_le_left sameMsg ts (ms.take n), hn, ?_⟩
  have hrel := agree_take sameMsg ts (ms.take n)
  rw [List.take_take, Nat.min_eq_left hn] at hrel
  have heq := hrel.imp fun a b hab => sameMsg_iff.mp hab
  exact List.forall₂_eq_eq_eq ▸ List.forall₂_map_left_iff.mpr
    (List.forall₂_map_right_iff.mpr heq)

/-- What pushing leaves: the chat is forgotten, or every turn was pushed. -/
theorem heldPushAll_spec (alloc : Nat → Bool) : ∀ (k : Nat) (h : Held) (ms : List Msg),
    (heldPushAll alloc k h ms).path = h.path ∧
      ((heldPushAll alloc k h ms).id = none ∨
        (heldPushAll alloc k h ms).id = h.id ∧
          (heldPushAll alloc k h ms).turns = h.turns ++ ms) := by
  intro k h ms
  induction ms generalizing k h with
  | nil => exact ⟨rfl, .inr ⟨rfl, (List.append_nil _).symm⟩⟩
  | cons m ms ih =>
      obtain ⟨hpath, hcases⟩ := ih (k + 1) (heldPush (alloc k) h m)
      rw [heldPushAll]
      have hpush : (heldPush (alloc k) h m).path = h.path ∧
          ((heldPush (alloc k) h m).id = none ∨
            (heldPush (alloc k) h m).id = h.id ∧
              (heldPush (alloc k) h m).turns = h.turns ++ [m]) := by
        unfold heldPush
        split
        · exact ⟨rfl, .inl rfl⟩
        · exact ⟨rfl, .inr ⟨rfl, rfl⟩⟩
      refine ⟨hpath.trans hpush.1, ?_⟩
      rcases hcases with hnone | ⟨hid, hturns⟩
      · exact .inl hnone
      · rcases hpush.2 with hnone | ⟨hid', hturns'⟩
        · exact .inl (hid.trans hnone)
        · refine .inr ⟨hid.trans hid', ?_⟩
          rw [hturns, hturns', List.append_assoc]
          rfl

theorem remember_sound {env : CallEnv P} {rest : List Msg} {r : Run P} (h : Sound r.w) :
    Sound (remember env rest r).w := by
  refine ⟨h.daemon, fun hid => ?_⟩
  obtain ⟨hpath, hcases⟩ := heldPushAll_spec env.alloc 0 r.w.held
    (rest ++ [⟨lit "assistant", answerText r.parts⟩])
  have hid : (heldPushAll env.alloc 0 r.w.held
      (rest ++ [⟨lit "assistant", answerText r.parts⟩])).id.isSome := hid
  change (heldPushAll env.alloc 0 r.w.held
    (rest ++ [⟨lit "assistant", answerText r.parts⟩])).path ∈ r.w.used
  rw [hpath]
  rcases hcases with hnone | ⟨hsame, _⟩
  · rw [hnone] at hid
    cases hid
  · exact h.path (hsame ▸ hid)

/-- Remembering what the daemon holds by now brings the copies together. -/
theorem remember_good {env : CallEnv P} {rest : List Msg} {r : Run P} {id : CStr}
    (h : Sound r.w) (hid : r.w.held.id = some id)
    (hholds : ∀ p d, r.w.daemon = some (p, d) → HoldsIn d.chats id
      (r.w.held.turns.map Msg.turn ++ rest.map Msg.turn ++
        [⟨.assistant, answerText r.parts⟩])) : Good (remember env rest r).w := by
  refine ⟨remember_sound h, fun p d id' hd _ hid' => ?_⟩
  obtain ⟨_, hcases⟩ := heldPushAll_spec env.alloc 0 r.w.held
    (rest ++ [⟨lit "assistant", answerText r.parts⟩])
  have hid' : (heldPushAll env.alloc 0 r.w.held
      (rest ++ [⟨lit "assistant", answerText r.parts⟩])).id = some id' := hid'
  rcases hcases with hnone | ⟨hsame, hturns⟩
  · rw [hnone] at hid'
    cases hid'
  · rw [hsame, hid] at hid'
    cases hid'
    have hmap : (remember env rest r).w.held.turns.map Msg.turn =
        r.w.held.turns.map Msg.turn ++ rest.map Msg.turn ++
          [⟨.assistant, answerText r.parts⟩] := by
      change (heldPushAll env.alloc 0 r.w.held _).turns.map Msg.turn = _
      rw [hturns, List.map_append, List.map_append, List.append_assoc]
      rfl
    rw [hmap]
    exact hholds p d hd

/-! ## One round of the loop -/

/-- What an attempt leaves. -/
def AttemptOk (a : ChatArgs) (r : Run P) : AttemptEnd → Prop
  | .again => Good r.w ∧ r.parts = []
  | .done rc _ =>
      Sound r.w ∧ (rc = 0 ∨ rc = 400 ∨ rc = 499 ∨ rc = 502) ∧
        (rc = 0 ∨ rc = 400 → Good r.w) ∧
        (rc = 0 → r.base = some (a.messages.map Msg.turn))

theorem AttemptOk.lost {a : ChatArgs} {r : Run P} {e : CStr} (h : Sound r.w) :
    AttemptOk a r (.done 502 e) :=
  ⟨h, .inr (.inr (.inr rfl)), fun h => by simp at h, fun h => by simp at h⟩

theorem forget_good {r : Run P} (h : Sound r.w) : Good (forget r).w :=
  .of_forgotten ⟨h.daemon, fun hid => by cases hid⟩ rfl

/-- A held chat that holds the first `keep` messages answers all of them. -/
theorem sendRest_ok [LawfulRuntime P.R] {a : ChatArgs} {env : CallEnv P}
    {capacity k keep : Nat} {id : CStr} {r : Run P} (hg : Good r.w) (hparts : r.parts = [])
    (hid : r.w.held.id = some id) (hpath : r.w.held.path = a.path)
    (hkeep : keep < a.messages.length)
    (hstart : r.w.held.turns.map Msg.turn = (a.messages.take keep).map Msg.turn) :
    AttemptOk a (sendRest a env capacity k id keep r).1
      (sendRest a env capacity k id keep r).2 := by
  have hne : a.messages.drop keep ≠ [] := by
    rw [Ne, List.drop_eq_nil_iff]
    omega
  have hall : r.w.held.turns.map Msg.turn ++ (a.messages.drop keep).map Msg.turn =
      a.messages.map Msg.turn := by
    rw [hstart, ← List.map_append, List.take_append_drop]
  unfold sendRest
  simp only [hparts, List.length_nil]
  generalize hrpc : rpc r.w a.path _ _ = res
  obtain ⟨w', heard⟩ := res
  simp only
  generalize hread : readAnswer env.part 0 heard.frames [] = ans
  obtain ⟨parts, e⟩ := ans
  obtain ⟨hsound, hheld⟩ := rpc_sound hrpc hg
  obtain ⟨hdone, hrefused⟩ := send_spec hg hid hpath hne hrpc hread
  simp only
  split
  · next s m =>
      split
      · next hunknown =>
          rcases hrefused s m rfl with ⟨_, hnil⟩ | ⟨hno, _⟩
          · exact ⟨forget_good hsound, hnil⟩
          · rw [hno] at hunknown
            cases hunknown
      · next hunknown =>
          split
          · next hctx =>
              rcases hrefused s m rfl with ⟨hyes, _⟩ | ⟨_, hkept⟩
              · exact absurd hyes hunknown
              · exact ⟨hsound, .inr (.inl rfl), fun _ => hkept hctx, fun h => by simp at h⟩
          · exact .lost hsound
  · exact .lost hsound
  · exact ⟨remember_sound hsound, .inr (.inr (.inl rfl)), fun h => by simp at h,
      fun h => by simp at h⟩
  · next st =>
      obtain ⟨hasked, _, hholds⟩ := hdone st rfl
      rw [← hheld] at hholds
      split
      · exact ⟨remember_sound hsound, .inr (.inr (.inl rfl)), fun h => by simp at h,
          fun h => by simp at h⟩
      · split
        · refine ⟨remember_sound hsound, .inl rfl, fun _ => ?_, fun _ => ?_⟩
          · exact remember_good hsound (by rw [hheld]; exact hid) hholds
          · change heard.asked.getLast? = _
            rw [hasked, hall]
            rfl
        · exact .lost (remember_sound hsound)

/-- Rewinding to the common start, where that is needed. -/
theorem rewindTo_spec [LawfulRuntime P.R] {a : ChatArgs} (env : CallEnv P) (k : Nat) {keep : Nat}
    {id : CStr} {r : Run P} (hg : Good r.w) (hid : r.w.held.id = some id)
    (hpath : r.w.held.path = a.path) (hle : keep ≤ r.w.held.turns.length)
    (hkeep : keep ≤ APP_CHAT_MESSAGES) :
    Sound (rewindTo a env k id keep r).1.w ∧
      (rewindTo a env k id keep r).1.w.held = r.w.held ∧
      (rewindTo a env k id keep r).1.parts = r.parts ∧
      (∀ ans, (rewindTo a env k id keep r).2 = .good ans →
        Good { (rewindTo a env k id keep r).1.w with held := heldKeep r.w.held keep }) := by
  unfold rewindTo
  split
  · generalize hrpc : rpc r.w a.path _ _ = res
    obtain ⟨w', heard⟩ := res
    obtain ⟨hsound, hheld⟩ := rpc_sound hrpc hg
    refine ⟨hsound, hheld, rfl, fun ans hans => ?_⟩
    have := rewind_spec hg hid hpath hkeep hrpc hans
    rwa [hheld] at this
  · next hge =>
      have hsame : heldKeep r.w.held keep = r.w.held := by
        rw [heldKeep, List.take_of_length_le (by omega)]
      refine ⟨hg.sound, rfl, rfl, fun _ _ => ?_⟩
      rw [hsame]
      exact hg

theorem attemptHeld_ok [LawfulRuntime P.R] {a : ChatArgs} {env : CallEnv P}
    {capacity k : Nat} {id : CStr} {r : Run P} (hg : Good r.w) (hparts : r.parts = [])
    (hid : r.w.held.id = some id) (hpath : r.w.held.path = a.path)
    (hpos : 0 < a.messages.length) (hcount : a.messages.length ≤ APP_CHAT_MESSAGES) :
    AttemptOk a (attemptHeld a env capacity k id r).1
      (attemptHeld a env capacity k id r).2 := by
  obtain ⟨hle, hlt, hstart⟩ :=
    common_start r.w.held.turns a.messages (a.messages.length - 1)
  unfold attemptHeld
  simp only
  generalize agree sameMsg r.w.held.turns (a.messages.take (a.messages.length - 1)) = keep
    at hle hlt hstart ⊢
  obtain ⟨hsound, hheld, hsame, hgood⟩ := rewindTo_spec env k hg hid hpath hle
    (by omega)
  generalize rewindTo a env k id keep r = res at hsound hheld hsame hgood ⊢
  obtain ⟨r', ans⟩ := res
  simp only at hsound hheld hsame hgood
  cases ans with
  | refused m =>
      simp only
      split
      · exact ⟨forget_good hsound, hsame.trans hparts⟩
      · exact .lost hsound
  | lost => exact .lost hsound
  | good ans =>
      simp only
      rw [hheld]
      exact sendRest_ok (r := { r' with w := { r'.w with held := heldKeep r.w.held keep } })
        (hgood ans rfl) (hsame.trans hparts) hid hpath (by omega)
        hstart

/-- Closing what does not fit only has to leave the daemon in order. -/
theorem closeHeld_sound (a : ChatArgs) (env : CallEnv P) (k : Nat) {r : Run P}
    (hg : Good r.w) :
    Sound (closeHeld a env k r).w ∧ (closeHeld a env k r).parts = r.parts := by
  unfold closeHeld
  split
  · split
    · exact ⟨(rpc_sound rfl hg).1, rfl⟩
    · exact ⟨hg.sound, rfl⟩
  · exact ⟨hg.sound, rfl⟩

/-- Opening a chat that fits: an empty one under the call's path, or none. -/
theorem openChat_ok [LawfulRuntime P.R] (a : ChatArgs) (env : CallEnv P) (k : Nat)
    {r : Run P} (hg : Good r.w) :
    Sound (openChat a env k r).1.w ∧ (openChat a env k r).1.parts = r.parts ∧
      (∀ id, (openChat a env k r).2 = some id → Good (openChat a env k r).1.w ∧
        (openChat a env k r).1.w.held.id = some id ∧
        (openChat a env k r).1.w.held.path = a.path) := by
  obtain ⟨hs₁, hparts⟩ := closeHeld_sound a env k hg
  unfold openChat
  generalize closeHeld a env k r = r₁ at hs₁ hparts ⊢
  have hg₁ : Good ({ r₁.w with held := { heldKeep r₁.w.held 0 with id := none } } : World P) :=
    .of_forgotten ⟨hs₁.daemon, fun hid => by cases hid⟩ rfl
  simp only
  generalize hrpc : rpc _ a.path _ _ = res
  obtain ⟨w', heard⟩ := res
  obtain ⟨hsound, hheld⟩ := rpc_sound hrpc hg₁
  simp only
  split
  · next n id hans =>
      split
      · obtain ⟨hused, hempty⟩ := open_spec hg₁ hrpc hans
        have hgood : Good ({ w' with
            held := { id := some id, path := a.path, temperature := a.temperature,
                      topP := a.topP, reasoning := formatOf a.reasoning } } : World P) := by
          refine ⟨⟨hsound.daemon, fun _ => hused⟩, fun p d id' hd _ hid' => ?_⟩
          cases hid'
          exact hempty p d hd
        refine ⟨hgood.sound, hparts, fun id' hid' => ?_⟩
        cases hid'
        exact ⟨hgood, rfl, rfl⟩
      · exact ⟨hsound, hparts, fun _ h => by cases h⟩
  · exact ⟨hsound, hparts, fun _ h => by cases h⟩

theorem attempt_ok [LawfulRuntime P.R] {a : ChatArgs} (env : CallEnv P) (capacity k : Nat)
    {r : Run P} (hg : Good r.w) (hparts : r.parts = []) (hpos : 0 < a.messages.length)
    (hcount : a.messages.length ≤ APP_CHAT_MESSAGES) :
    AttemptOk a (attempt a env capacity k r).1 (attempt a env capacity k r).2 := by
  unfold attempt
  by_cases hfits : fits r.w.held a = true
  · rw [if_pos hfits]
    simp only [fits, Bool.and_eq_true, decide_eq_true_eq] at hfits
    obtain ⟨id, hid⟩ := Option.isSome_iff_exists.mp hfits.1.1.1.1
    simp only [hid]
    exact attemptHeld_ok hg hparts hid hfits.1.1.1.2 hpos hcount
  · rw [if_neg hfits]
    obtain ⟨hsound, hsame, hopened⟩ := openChat_ok a env k hg
    generalize openChat a env k r = res at hsound hsame hopened ⊢
    obtain ⟨r', id⟩ := res
    cases id with
    | none => exact .lost hsound
    | some id =>
        obtain ⟨hg', hid', hpath'⟩ := hopened id rfl
        exact attemptHeld_ok hg' (hsame.trans hparts) hid' hpath' hpos hcount

/-! ## One call -/

/-- What a call leaves. -/
structure CallOk (a : ChatArgs) (r : World P × Outcome) : Prop where
  sound : Sound r.1
  good : ¬ Restarts r.2.rc → Good r.1
  base : r.2.rc = 0 → r.2.base = some (a.messages.map Msg.turn)

theorem cleanup_rc (rc : Nat) (error : CStr) (stage : Stage) (errno : App.Errno) :
    (rc ≠ 502 → (cleanup rc error stage errno).1 = rc) ∧
      (rc = 502 → Restarts (cleanup rc error stage errno).1) := by
  unfold cleanup
  refine ⟨fun h => ?_, fun h => ?_⟩
  · simp only [if_neg h]
  · simp only [if_pos h]
    cases errno
    · exact .inr (.inl rfl)
    · exact .inr (.inr (.inr rfl))
    · exact .inr (.inr (.inl rfl))

theorem finish_ok {a : ChatArgs} {env : CallEnv P} {r : Run P} {rc : Nat} {error : CStr}
    (h : AttemptOk a r (.done rc error)) : CallOk a (r.finish env rc error) := by
  obtain ⟨hsound, hrc, hgood, hbase⟩ := h
  obtain ⟨hsame, hrestart⟩ := cleanup_rc rc error r.stats.stage env.errno
  have hfin : (r.finish env rc error).2.rc =
      (cleanup rc error r.stats.stage env.errno).1 := rfl
  rcases hrc with rfl | rfl | rfl | rfl
  · exact ⟨hsound, fun _ => hgood (.inl rfl), fun _ => hbase rfl⟩
  · exact ⟨hsound, fun _ => hgood (.inr rfl), fun h0 => by cases h0⟩
  · exact ⟨hsound, fun hno => absurd (.inr (.inl rfl)) hno, fun h0 => by cases h0⟩
  · have hbad : Restarts (r.finish env 502 error).2.rc := hrestart rfl
    refine ⟨hsound, fun hno => absurd hbad hno, fun h0 => ?_⟩
    rw [h0] at hbad
    exact absurd hbad (by decide)

theorem attempts_ok [LawfulRuntime P.R] {a : ChatArgs} {env : CallEnv P} {capacity : Nat}
    (hpos : 0 < a.messages.length) (hcount : a.messages.length ≤ APP_CHAT_MESSAGES) :
    ∀ {ks : List Nat} {r : Run P}, Good r.w → r.parts = [] →
      CallOk a (attempts a env capacity ks r) := by
  intro ks
  induction ks with
  | nil => exact fun hg _ => finish_ok (.lost hg.sound)
  | cons k ks ih =>
      intro r hg hparts
      have hok := attempt_ok env capacity k hg hparts hpos
        hcount
      rw [attempts]
      generalize attempt a env capacity k r = res at hok ⊢
      obtain ⟨r', e⟩ := res
      cases e with
      | done rc error => exact finish_ok hok
      | again => exact ih hok.1 hok.2

/-- One call, from a world in which the copies agree. -/
theorem appDaemonChat_ok [LawfulRuntime P.R] {w : World P} (a : ChatArgs) (env : CallEnv P)
    (hg : Good w) : CallOk a (appDaemonChat w a env) := by
  unfold appDaemonChat
  simp only
  split
  · exact finish_ok (.lost hg.sound)
  · next hstart =>
      have hname : w.held.id.isSome → chatOf infoFrame ≠ w.held.id := by
        intro hsome hnone
        rw [← hnone] at hsome
        cases hsome
      generalize hrpc : rpc w a.path _ _ = res
      obtain ⟨w', heard⟩ := res
      obtain ⟨hg', _⟩ := rpc_good hrpc hg hname
      simp only
      split
      · split
        · exact finish_ok ⟨hg'.sound, .inr (.inl rfl), fun _ => hg', fun h => by cases h⟩
        · split
          · exact finish_ok (.lost hg'.sound)
          · exact attempts_ok (by omega) (by omega) hg' rfl
      · exact finish_ok (.lost hg'.sound)

/-! ## Whole runs -/

/-- Whatever the mirror is worth, it is worth nothing at a new path. -/
theorem restart_good {w : World P} (h : Sound w) {rc : Nat}
    {after : Option (CStr × Daemon P)} (hrc : Restarts rc) :
    Good (observationEnd w rc after) := by
  have hstop : Good (applyEvent w .stop) :=
    ⟨⟨fun _ _ hd => (by cases hd), h.path⟩, fun _ _ _ hd => by cases hd⟩
  unfold observationEnd
  rw [if_pos hrc]
  cases after with
  | none => exact hstop
  | some pd => exact (applyEvent_good hstop _).1

/-- A call that ends well leaves the daemon running. -/
theorem observationEnd_good {w : World P} {rc : Nat} {after : Option (CStr × Daemon P)}
    (hrc : ¬ Restarts rc) : observationEnd w rc after = w := by
  unfold observationEnd
  rw [if_neg hrc]

theorem step_good [LawfulRuntime P.R] {w w' : World P} {act : AppAct P}
    (h : w.step act = some w') (hg : Good w) : Good w' := by
  cases act with
  | event e =>
      cases h
      exact (applyEvent_good hg e).1
  | chat a env after =>
      obtain ⟨hsound, hgood, _⟩ := appDaemonChat_ok a env hg
      have hw' : observationEnd (appDaemonChat w a env).1 (appDaemonChat w a env).2.rc after =
          w' := Option.some.inj h
      rw [← hw']
      by_cases hrc : Restarts (appDaemonChat w a env).2.rc
      · exact restart_good hsound hrc
      · rw [observationEnd_good hrc]
        exact hgood hrc

theorem reach_good [LawfulRuntime P.R] {w : World P}
    (h : (appMachine P).Reach Machine.free w) : Good w := by
  refine h.invariant (I := Good) (fun w hw => ?_) fun _ _ _ _ _ hstep => step_good hstep
  refine .of_forgotten ⟨fun p d hd => ?_, fun hid => ?_⟩ hw.2
  · rw [hw.1] at hd
    cases hd
  · rw [hw.2] at hid
    cases hid

/-- Whenever a call returns 0, geistd generated the answer from exactly the
messages of that call. -/
theorem answered_from_request [LawfulRuntime P.R] {w : World P}
    (h : (appMachine P).Reach Machine.free w) (a : ChatArgs) (env : CallEnv P)
    (hrc : (appDaemonChat w a env).2.rc = 0) :
    (appDaemonChat w a env).2.base = some (a.messages.map Msg.turn) :=
  (appDaemonChat_ok a env (reach_good h)).base hrc

/-- A daemon has come up. -/
def upWorld : World plain :=
  applyEvent { daemon := none, used := [], held := {} }
    (.restart (lit "/s") (plainDaemon 1 1 none false))

theorem upWorld_reach : (appMachine plain).Reach Machine.free upWorld :=
  .step (a := .event (.restart (lit "/s") (plainDaemon 1 1 none false))) (.init ⟨rfl, rfl⟩)
    trivial rfl

/-- One question has been answered. -/
def talkedWorld (a : ChatArgs) (env : CallEnv plain) : World plain :=
  (appDaemonChat upWorld a env).1

def askPlain (ms : List (String × String)) : ChatArgs where
  path := lit "/s"
  messages := ms.map fun m => ⟨lit m.1, lit m.2⟩
  max := 0
  temperature := .fin 0
  topP := .fin 1
  reasoning := none

/-- Every request arrives and every frame is read. -/
def smooth : CallEnv plain where
  fate _ := { env := ⟨1, lit "0123456789abcdef", false⟩, seen := 8 }

theorem answered_from_request_again :
    (appDaemonChat (talkedWorld (askPlain [("user", "a")]) smooth)
      (askPlain [("user", "a"), ("assistant", "b"), ("user", "c")]) smooth).2.base =
      some [⟨.user, lit "a"⟩, ⟨.assistant, lit "b"⟩, ⟨.user, lit "c"⟩] := by
  have hrc : ¬ Restarts (appDaemonChat upWorld (askPlain [("user", "a")]) smooth).2.rc := by
    decide +kernel
  have htalked : (appMachine plain).Reach Machine.free
      (talkedWorld (askPlain [("user", "a")]) smooth) :=
    .step (a := .chat (askPlain [("user", "a")]) smooth none) upWorld_reach trivial
      (congrArg some (observationEnd_good hrc))
  exact answered_from_request htalked _ smooth (by decide +kernel)

end GeistServe.Proofs
