import GeistServe.Proofs.Recency
import GeistServe.Proofs.ChatTable
import GeistServe.Proofs.SessionMirror
import GeistServe.Geistd.Plain

/-!
# Who is evicted

Every op that names a session or a chat, or makes one, is a use of it. The runs
of this file carry the uses along, and in all of them the tables are `Dated`:
what an op does to the times of use is what it says it uses. An `open` and a
`chat_open` are then cases of the one eviction of `Recency.lean`, the first with
the sweep of idle sessions before it, the second without.
-/

namespace GeistServe.Proofs

open GeistServe.Lib GeistServe.Geistd

/-! ## What the ops do to times of use -/

variable {P : Platform}

theorem set_aged {α : Type} {used : α → Nat} {slots : List (Option α)} {i : Nat} {x : α}
    (hx : slot slots i = some x) {v : Option α} (hv : ∀ y, v = some y → used y = used x) :
    Aged used slots (slots.set i v) := by
  intro k y hy
  rw [slot_set_live hx] at hy
  by_cases hk : i = k
  · subst hk
    rw [if_pos rfl] at hy
    exact ⟨x, hx, hv y hy⟩
  · rw [if_neg hk] at hy
    exact ⟨y, hy, rfl⟩

theorem onSess_aged (d : Daemon P) (k : Option Nat) (miss : String)
    {f : Sess P.E → Sess P.E × Reply} (hf : ∀ x, (f x).1.used = x.used) :
    Aged Sess.used d.sess (d.onSess k miss f).1.sess := by
  unfold Daemon.onSess
  split
  · exact Aged.refl _
  · next i x heq =>
      obtain ⟨j, _, hm⟩ := Option.bind_eq_some_iff.mp heq
      obtain ⟨y, hy, hpair⟩ := Option.map_eq_some_iff.mp hm
      cases hpair
      refine set_aged hy fun z hz => ?_
      cases hz
      exact hf x

theorem histPush_used {E : Engine} (x : Sess E) (ids : List Int) :
    (histPush x ids).used = x.used := by
  unfold histPush
  split <;> rfl

theorem prefillTail_used {E : Engine} (x : Sess E) (ids : List Int) (reused : Nat) :
    (prefillTail x ids reused).1.used = x.used := by
  unfold prefillTail
  simp only
  split
  · rfl
  · split
    · rfl
    · exact histPush_used _ _

theorem opPrefill_used {E : Engine} (vocab : Nat) (x : Sess E) (body : Body) :
    (opPrefill vocab x body).1.used = x.used := by
  unfold opPrefill
  simp only
  split
  · rfl
  split
  · rfl
  split
  · rfl
  split
  · rfl
  split
  · exact prefillTail_used _ _ _
  split
  · rfl
  split
  · rfl
  split
  · rfl
  · exact prefillTail_used _ _ _

theorem opStep_used {E : Engine} (eos : Int) (eot : List Int) (x : Sess E) :
    (opStep eos eot x).1.used = x.used := by
  unfold opStep
  split
  · rfl
  split
  · rfl
  split
  · rfl
  · exact histPush_used _ _

theorem opPin_used {E : Engine} (x : Sess E) (n : Nat) : (opPin x n).1.used = x.used := by
  unfold opPin
  split
  · rfl
  split
  · rfl
  split <;> rfl

theorem opUnpin_used {E : Engine} (x : Sess E) : (opUnpin x).1.used = x.used := by
  unfold opUnpin
  split <;> rfl

theorem genLoop_used {E : Engine} (st : Stops) : ∀ (fuel k : Nat) (tail : CStr) (x : Sess E)
    (c : Conn), (genLoop st fuel k tail x c).1.used = x.used := by
  intro fuel
  induction fuel with
  | zero => exact fun _ _ _ _ => rfl
  | succ fuel ih =>
      intro k tail x c
      rw [genLoop]
      split
      · rfl
      split
      · rfl
      · simp only
        split
        · exact histPush_used _ _
        · split
          · exact histPush_used _ _
          · rw [ih]
            exact histPush_used _ _

theorem opGenerate_used {E : Engine} (st : Stops) (max : Nat) (x : Sess E) (c : Conn) :
    (opGenerate st max x c).1.used = x.used := by
  have hloop := genLoop_used st max 0 [] x c
  unfold opGenerate
  split
  · rfl
  · generalize genLoop st max 0 [] x c = r at hloop
    obtain ⟨x', c', reason, k⟩ := r
    simp only
    split
    · exact hloop
    · exact hloop

theorem generate_aged (d : Daemon P) (k : Option Nat) (j : Json) (c : Conn) :
    Aged Sess.used d.sess (d.generate k j c).1.sess := by
  unfold Daemon.generate
  split
  · exact Aged.refl _
  · next i x heq =>
      obtain ⟨j', _, hm⟩ := Option.bind_eq_some_iff.mp heq
      obtain ⟨y, hy, hpair⟩ := Option.map_eq_some_iff.mp hm
      cases hpair
      refine set_aged hy fun z hz => ?_
      cases hz
      exact opGenerate_used _ _ _ _

theorem opClose_aged (d : Daemon P) (k : Option Nat) :
    Aged Sess.used d.sess (d.opClose k).1.sess := by
  unfold Daemon.opClose
  split
  · exact Aged.refl _
  · next i =>
      intro k x hx
      have hx : slot (d.sess.set i none) k = some x := hx
      rw [slot_set] at hx
      split at hx
      · split at hx <;> cases hx
      · exact ⟨x, hx, rfl⟩

theorem findChat_sess (d : Daemon P) (env : Env) (id : Option CStr) :
    (d.findChat env id).1.sess = d.sess := by
  unfold Daemon.findChat
  split <;> rfl

/-- Every chat op but `chat_open` leaves the times of use that the lookup noted. -/
theorem chatOp_aged (d : Daemon P) (env : Env) {op : CStr} (j : Json) (body : Body) (c : Conn)
    (hop : op ≠ lit "chat_open") :
    Aged Chat.used (d.findChat env (jsonStrdup (jsonGet j "chat"))).1.chats
      (d.chatOp env op j body c).1.chats := by
  have hfound : ∀ {d : Daemon P} {k : Option Nat} {i : Nat} {x : Chat P.R},
      (k.bind fun i => (slot d.chats i).map fun x => (i, x)) = some (i, x) →
        slot d.chats i = some x := by
    intro d k i x heq
    obtain ⟨j', _, hm⟩ := Option.bind_eq_some_iff.mp heq
    obtain ⟨y, hy, hpair⟩ := Option.map_eq_some_iff.mp hm
    cases hpair
    exact hy
  unfold Daemon.chatOp
  generalize d.findChat env (jsonStrdup (jsonGet j "chat")) = found
  obtain ⟨d, k⟩ := found
  simp only
  rw [if_neg hop]
  split
  · split
    · exact Aged.refl _
    · next heq => exact set_aged (hfound heq) fun z hz => by cases hz; rfl
  · split
    · exact Aged.refl _
    · next heq =>
        split
        · exact set_aged (hfound heq) fun z hz => by cases hz; rfl
        · split
          · exact set_aged (hfound heq) fun z hz => by cases hz
          · exact Aged.refl _

/-! ## Runs with their uses -/

/-- The op of a frame that the daemon dispatches, with the header. -/
def ranOp (d : Daemon P) (c : Conn) (f : Frame) : Option (CStr × Json) :=
  f.hdr.bind fun j => (jsonStrdup (jsonGet j "op")).bind fun op =>
    if op = lit "hello" ∨ (d.needHello && !c.authed) then none else some (op, j)

/-- The daemon once an op has looked up its session. -/
def looked (d : Daemon P) (env : Env) (j : Json) : Daemon P :=
  (d.findSess env (jsonStrdup (jsonGet j "session"))).1

/-- The daemon once a chat op has also looked up its chat. -/
def lookedChat (d : Daemon P) (env : Env) (j : Json) : Daemon P :=
  ((looked d env j).findChat env (jsonStrdup (jsonGet j "chat"))).1

/-- The slot of the session that an `open` makes, if it makes one. -/
def openedSlot (d : Daemon P) (env : Env) (j : Json) : Option Nat :=
  if (Daemon.sessOptions j).2 then none
  else match P.E.create d.mo (Daemon.sessOptions j).1 with
    | (_, none) => none
    | (_, some _) =>
        if env.oom then none
        else some (slotFor Sess.used (sessEvictIdle env.now d.idleS d.sess))

/-- The slot of the chat that a `chat_open` makes, if it makes one. -/
def openedChat (d : Daemon P) (j : Json) : Option Nat :=
  match d.rt with
  | none => none
  | some m =>
      if (chatOptions j).2 then none
      else match P.R.chatOpen m (chatOptions j).1 with
        | (_, none) => none
        | (_, some _) => some (slotFor Chat.used d.chats)

/-- An op uses the session that it names, and then the one that it makes. -/
def namedSess (u : Uses) (d : Daemon P) (env : Env) (j : Json) : Uses :=
  u.note env.now (sessFind d.sess (jsonStrdup (jsonGet j "session")))

def sessUses (u : Uses) (d : Daemon P) (env : Env) (op : CStr) (j : Json) : Uses :=
  (namedSess u d env j).note env.now
    (if op = lit "open" then openedSlot (looked d env j) env j else none)

/-- The same for chats; only the chat ops look one up. -/
def namedChat (u : Uses) (d : Daemon P) (env : Env) (j : Json) : Uses :=
  u.note env.now (chatFind d.chats (jsonStrdup (jsonGet j "chat")))

def chatUses (u : Uses) (d : Daemon P) (env : Env) (op : CStr) (j : Json) : Uses :=
  if (lit "chat_").isPrefixOf op then
    (namedChat u d env j).note env.now
      (if op = lit "chat_open" then openedChat (lookedChat d env j) j else none)
  else u

/-- A daemon with its connections, the uses so far and the last time seen. -/
structure Counted (P : Platform) where
  s : Server P
  sess : Uses := {}
  chats : Uses := {}
  clock : Nat := 0

/-- The clock does not go back. -/
def Counted.step (w : Counted P) : Event → Option (Counted P)
  | .frame k f env =>
      if env.now < w.clock then none
      else (w.s.step (.frame k f env)).map fun s' =>
        match (w.s.conns k).bind fun c => ranOp w.s.d c f with
        | none => { w with s := s', clock := env.now }
        | some (op, j) =>
            ⟨s', sessUses w.sess w.s.d env op j, chatUses w.chats w.s.d env op j, env.now⟩
  | .accept k life => (w.s.step (.accept k life)).map fun s' => { w with s := s' }
  | .malformed k => (w.s.step (.malformed k)).map fun s' => { w with s := s' }

def watchMachine (P : Platform) : Machine (Counted P) Event where
  init w := w.s.Started
  step := Counted.step

/-! ## The dates of a run -/

theorem handle_ran {d : Daemon P} {env : Env} {f : Frame} {c : Conn} {op : CStr} {j : Json}
    (h : ranOp d c f = some (op, j)) :
    handle d env f c = dispatch d env op j f.body { c with ran := c.ran ++ [op] } := by
  obtain ⟨j', hj, h⟩ := Option.bind_eq_some_iff.mp h
  obtain ⟨op', hop, h⟩ := Option.bind_eq_some_iff.mp h
  split at h
  · cases h
  · next hno =>
      cases h
      rw [not_or] at hno
      unfold handle
      rw [hj]
      simp only [hop]
      rw [if_neg hno.1, if_neg hno.2]

theorem handle_idle {d : Daemon P} {env : Env} {f : Frame} {c : Conn}
    (h : ranOp d c f = none) : (handle d env f c).1 = d := by
  unfold handle
  cases hj : f.hdr with
  | none => rfl
  | some j =>
      cases hop : jsonStrdup (jsonGet j "op") with
      | none =>
          simp only [hop]
          rfl
      | some op =>
          rw [ranOp, hj, Option.bind_some, hop, Option.bind_some] at h
          simp only [hop]
          by_cases hhello : op = lit "hello"
          · rw [if_pos hhello]
            split <;> rfl
          · rw [if_neg hhello]
            by_cases hgate : (d.needHello && !c.authed) = true
            · rw [if_pos hgate]
            · rw [if_neg (not_or.mpr ⟨hhello, hgate⟩)] at h
              cases h

theorem findSess_dated {d : Daemon P} {u : Uses} {env : Env} {j : Json}
    (h : Dated Sess.used d.sess u env.now) :
    Dated Sess.used (looked d env j).sess (namedSess u d env j) env.now := by
  unfold looked namedSess Daemon.findSess
  cases hfind : sessFind d.sess (jsonStrdup (jsonGet j "session")) with
  | none => exact h
  | some k =>
      simp only
      refine h.use (fun i x hi hx => ?_) fun x hx => ?_
      · rw [slot_modify, if_neg (Ne.symm hi)] at hx
        exact ⟨x, hx, rfl⟩
      · rw [slot_modify, if_pos rfl] at hx
        obtain ⟨y, _, rfl⟩ := Option.map_eq_some_iff.mp hx
        rfl

theorem findChat_dated {d : Daemon P} {u : Uses} {env : Env} {j : Json}
    (h : Dated Chat.used d.chats u env.now) :
    Dated Chat.used (lookedChat d env j).chats (namedChat u d env j) env.now := by
  have hsame : (looked d env j).chats = d.chats := findSess_chats _ _ _
  unfold lookedChat namedChat Daemon.findChat
  rw [hsame]
  cases hfind : chatFind d.chats (jsonStrdup (jsonGet j "chat")) with
  | none =>
      simp only
      rw [hsame]
      exact h
  | some k =>
      refine h.use (fun i x hi hx => ?_) fun x hx => ?_
      · rw [slot_modify, if_neg (Ne.symm hi)] at hx
        exact ⟨x, hx, rfl⟩
      · rw [slot_modify, if_pos rfl] at hx
        obtain ⟨y, _, rfl⟩ := Option.map_eq_some_iff.mp hx
        rfl

theorem swept_aged {α : Type} {used : α → Nat} (keep : α → Bool) (slots : List (Option α)) :
    Aged used slots (swept keep slots) :=
  fun _ x hx => ⟨x, (swept_some.mp hx).1, rfl⟩

/-- A table in which one slot gets a new entry, or is freed. -/
theorem set_dated {α : Type} {used : α → Nat} {slots : List (Option α)} {u : Uses} {now k : Nat}
    {v : Option α} (h : Dated used slots u now) :
    (v = none → Dated used (slots.set k v) u now) ∧
      ((∀ x, v = some x → used x = now) → Dated used (slots.set k v) (u.note now (some k)) now) := by
  have hother : ∀ i x, i ≠ k → slot (slots.set k v) i = some x →
      ∃ y, slot slots i = some y ∧ used x = used y := by
    intro i x hi hx
    rw [slot_set, if_neg (Ne.symm hi)] at hx
    exact ⟨x, hx, rfl⟩
  have hself : ∀ x, slot (slots.set k v) k = some x → v = some x := by
    intro x hx
    rw [slot_set, if_pos rfl] at hx
    split at hx
    · exact hx
    · cases hx
  refine ⟨fun hv => h.aged fun i x hx => ?_, fun hv => h.use hother fun x hx => hv x (hself x hx)⟩
  by_cases hi : i = k
  · subst hi
    rw [hv] at hself
    cases hself x (hv ▸ hx)
  · exact hother i x hi hx

theorem opOpen_dated {d : Daemon P} {u : Uses} {env : Env} {j : Json}
    (h : Dated Sess.used d.sess u env.now) :
    Dated Sess.used (d.opOpen env j).1.sess (u.note env.now (openedSlot d env j)) env.now := by
  have hswept : Dated Sess.used (sessEvictIdle env.now d.idleS d.sess) u env.now :=
    h.aged (swept_aged _ _)
  unfold Daemon.opOpen openedSlot
  generalize Daemon.sessOptions j = o
  obtain ⟨o, bad⟩ := o
  simp only
  cases bad with
  | true => exact h
  | false =>
      rw [if_neg Bool.false_ne_true, if_neg Bool.false_ne_true]
      rcases P.E.create d.mo o with ⟨mo, s | s⟩
      · exact (set_dated hswept).1 rfl
      · simp only
        split
        · exact (set_dated hswept).1 rfl
        · refine (set_dated hswept).2 fun x hx => ?_
          cases hx
          rfl

theorem opChatOpen_dated {d : Daemon P} {u : Uses} {env : Env} {j : Json}
    (h : Dated Chat.used d.chats u env.now) :
    Dated Chat.used (opChatOpen env.now env.newId d.rt d.chats j).2.1
      (u.note env.now (openedChat d j)) env.now := by
  unfold opChatOpen openedChat
  cases d.rt with
  | none => exact h
  | some m =>
      generalize chatOptions j = o
      obtain ⟨o, bad⟩ := o
      simp only
      cases bad with
      | true => exact h
      | false =>
          rw [if_neg Bool.false_ne_true, if_neg Bool.false_ne_true]
          rcases P.R.chatOpen m o with ⟨m', c | c⟩
          · exact (set_dated h).1 rfl
          · refine (set_dated h).2 fun x hx => ?_
            cases hx
            rfl

theorem dispatch_open (d : Daemon P) (env : Env) (j : Json) (body : Body) (c : Conn) :
    dispatch d env (lit "open") j body c = Daemon.say c ((looked d env j).opOpen env j) := by
  unfold dispatch looked
  generalize d.findSess env (jsonStrdup (jsonGet j "session")) = found
  obtain ⟨d', x⟩ := found
  simp only
  rw [if_neg (by decide), if_neg (by decide), if_neg (by decide), if_pos trivial]

/-- An op that names no op of chats is none of them. -/
theorem not_chat {op : CStr} (hop : (lit "chat_").isPrefixOf op = true) {s : String}
    (hs : (lit "chat_").isPrefixOf (lit s) = false) : op ≠ lit s := by
  rintro rfl
  rw [hs] at hop
  cases hop

theorem dispatch_chat (d : Daemon P) (env : Env) {op : CStr} (j : Json) (body : Body) (c : Conn)
    (hop : (lit "chat_").isPrefixOf op = true) :
    dispatch d env op j body c = (looked d env j).chatOp env op j body c := by
  unfold dispatch looked
  generalize d.findSess env (jsonStrdup (jsonGet j "session")) = found
  obtain ⟨d', x⟩ := found
  simp only
  have hnot : ∀ {s : String}, (lit "chat_").isPrefixOf (lit s) = false → ¬ op = lit s :=
    fun hs => not_chat hop hs
  rw [if_neg (hnot (by decide)), if_neg (hnot (by decide)), if_neg (hnot (by decide)),
    if_neg (hnot (by decide)), if_neg (hnot (by decide)), if_neg (hnot (by decide)),
    if_neg (hnot (by decide)), if_neg (hnot (by decide)), if_neg (hnot (by decide)),
    if_neg (hnot (by decide)), if_neg (hnot (by decide)), if_neg (hnot (by decide)), if_pos hop]

/-- Every op but `open` leaves the times of use that the lookup noted. -/
theorem dispatch_aged (d : Daemon P) (env : Env) {op : CStr} (j : Json) (body : Body) (c : Conn)
    (hop : op ≠ lit "open") :
    Aged Sess.used (looked d env j).sess (dispatch d env op j body c).1.sess := by
  unfold dispatch looked
  generalize d.findSess env (jsonStrdup (jsonGet j "session")) = found
  obtain ⟨d', x⟩ := found
  simp only
  let Kept (r : Daemon P × Conn × Bool) : Prop := Aged Sess.used d'.sess r.1.sess
  have branch : ∀ {q : Prop} [Decidable q] {a b : Daemon P × Conn × Bool},
      Kept a → Kept b → Kept (if q then a else b) :=
    fun ha hb => iteInduction (motive := Kept) (fun _ => ha) fun _ => hb
  have same : ∀ {r : Daemon P × Conn × Bool}, r.1.sess = d'.sess → Kept r := by
    intro r h
    change Aged Sess.used d'.sess r.1.sess
    rw [h]
    exact Aged.refl d'.sess
  have sess : ∀ {miss : String} {f : Sess P.E → Sess P.E × Reply},
      (∀ x, (f x).1.used = x.used) → Kept (Daemon.say c (d'.onSess x miss f)) :=
    fun hf => onSess_aged d' x _ hf
  refine branch (same rfl) (branch (same rfl) (branch (sess opUnpin_used) ?_))
  rw [if_neg hop]
  exact branch (same (opTokenize_sess _ _)) <| branch (sess fun _ => rfl) <|
    branch (sess fun _ => opPrefill_used _ _ _) <| branch (same (opPeek_sess _ _)) <|
    branch (sess fun _ => opStep_used _ _ _) <| branch (generate_aged _ _ _ _) <|
    branch (sess fun _ => rfl) <| branch (sess fun _ => opPin_used _ _) <|
    branch (same (chatOp_sess _ _ _ _ _ _)) <| branch (opClose_aged _ _) (same rfl)

theorem dispatch_otherChats (d : Daemon P) (env : Env) {op : CStr} (j : Json) (body : Body)
    (c : Conn) (hop : ¬ (lit "chat_").isPrefixOf op = true) :
    (dispatch d env op j body c).1.chats = d.chats := by
  have hlooked : (looked d env j).chats = d.chats := findSess_chats _ _ _
  unfold looked at hlooked
  unfold dispatch
  generalize d.findSess env (jsonStrdup (jsonGet j "session")) = found at hlooked
  obtain ⟨d', x⟩ := found
  have hlooked : d'.chats = d.chats := hlooked
  simp only
  rw [← hlooked]
  let Same (r : Daemon P × Conn × Bool) : Prop := r.1.chats = d'.chats
  have branch : ∀ {q : Prop} [Decidable q] {a b : Daemon P × Conn × Bool},
      Same a → Same b → Same (if q then a else b) :=
    fun ha hb => iteInduction (motive := Same) (fun _ => ha) fun _ => hb
  have sess : ∀ {k miss f}, Same (Daemon.say c (d'.onSess k miss f)) := onSess_chats _ _ _ _
  refine branch rfl <| branch rfl <| branch sess <| branch (opOpen_chats _ _ _) <|
    branch (opTokenize_chats _ _) <| branch sess <| branch sess <| branch (opPeek_chats _ _) <|
    branch sess <| branch (generate_chats _ _ _ _) <| branch sess <| branch sess ?_
  rw [if_neg hop]
  exact branch (opClose_chats _ _) rfl

theorem dispatch_dated {d : Daemon P} {u : Uses} {env : Env} {op : CStr} {j : Json} {body : Body}
    {c : Conn} (h : Dated Sess.used d.sess u env.now) :
    Dated Sess.used (dispatch d env op j body c).1.sess (sessUses u d env op j) env.now := by
  have hlooked := findSess_dated (j := j) h
  unfold sessUses
  by_cases hop : op = lit "open"
  · subst hop
    rw [if_pos rfl, dispatch_open]
    exact opOpen_dated hlooked
  · rw [if_neg hop]
    exact hlooked.aged (dispatch_aged d env j body c hop)

theorem chatOp_chatOpen (d : Daemon P) (env : Env) (j : Json) (body : Body) (c : Conn) :
    d.chatOp env (lit "chat_open") j body c =
      let d' := (d.findChat env (jsonStrdup (jsonGet j "chat"))).1
      let r := opChatOpen env.now env.newId d'.rt d'.chats j
      Daemon.say c ({ d' with rt := r.1, chats := r.2.1 }, r.2.2) := by
  unfold Daemon.chatOp
  generalize d.findChat env (jsonStrdup (jsonGet j "chat")) = found
  obtain ⟨d', x⟩ := found
  simp only
  rw [if_pos trivial]

theorem dispatch_datedChats {d : Daemon P} {u : Uses} {env : Env} {op : CStr} {j : Json}
    {body : Body} {c : Conn} (h : Dated Chat.used d.chats u env.now) :
    Dated Chat.used (dispatch d env op j body c).1.chats (chatUses u d env op j) env.now := by
  unfold chatUses
  by_cases hchat : (lit "chat_").isPrefixOf op = true
  · have hlooked := findChat_dated (j := j) h
    rw [if_pos hchat, dispatch_chat d env j body c hchat]
    by_cases hop : op = lit "chat_open"
    · subst hop
      rw [if_pos rfl, chatOp_chatOpen]
      exact opChatOpen_dated hlooked
    · rw [if_neg hop]
      exact hlooked.aged (chatOp_aged (looked d env j) env j body c hop)
  · rw [if_neg hchat, dispatch_otherChats d env j body c hchat]
    exact h

/-- In every state of a run the tables carry the dates of their uses. -/
structure Noted (w : Counted P) : Prop where
  sess : Dated Sess.used w.s.d.sess w.sess w.clock
  chats : Dated Chat.used w.s.d.chats w.chats w.clock

theorem noted_step {w w' : Counted P} {e : Event} (h : Noted w)
    (hstep : w.step e = some w') : Noted w' := by
  cases e with
  | accept k life =>
      rw [Counted.step] at hstep
      obtain ⟨s', hs, rfl⟩ := Option.map_eq_some_iff.mp hstep
      cases hs
      exact ⟨h.sess, h.chats⟩
  | malformed k =>
      rw [Counted.step] at hstep
      obtain ⟨s', hs, rfl⟩ := Option.map_eq_some_iff.mp hstep
      obtain ⟨c, _, rfl⟩ := Option.map_eq_some_iff.mp hs
      exact ⟨h.sess, h.chats⟩
  | frame k f env =>
      rw [Counted.step] at hstep
      split at hstep
      · cases hstep
      · next hclock =>
          have hle : w.clock ≤ env.now := Nat.le_of_not_lt hclock
          obtain ⟨s', hs, rfl⟩ := Option.map_eq_some_iff.mp hstep
          obtain ⟨c, hc, rfl⟩ := Option.map_eq_some_iff.mp hs
          rw [hc, Option.bind_some]
          cases hran : ranOp w.s.d c f with
          | none =>
              have hsame : (handle w.s.d env f c).1 = w.s.d := handle_idle hran
              refine ⟨?_, ?_⟩
              · change Dated Sess.used (handle w.s.d env f c).1.sess w.sess env.now
                rw [hsame]
                exact h.sess.later hle
              · change Dated Chat.used (handle w.s.d env f c).1.chats w.chats env.now
                rw [hsame]
                exact h.chats.later hle
          | some r =>
              obtain ⟨op, j⟩ := r
              refine ⟨?_, ?_⟩
              · change Dated Sess.used (handle w.s.d env f c).1.sess _ env.now
                rw [handle_ran hran]
                exact dispatch_dated (h.sess.later hle)
              · change Dated Chat.used (handle w.s.d env f c).1.chats _ env.now
                rw [handle_ran hran]
                exact dispatch_datedChats (h.chats.later hle)

theorem started_dated {α : Type} {used : α → Nat} {slots : List (Option α)} {u : Uses}
    {clock : Nat} (h : ∀ i, slot slots i = none) : Dated used slots u clock := by
  have hno : ∀ {i x}, slot slots i ≠ some x := by
    intro i x hx
    rw [h i] at hx
    cases hx
  exact ⟨fun hx => absurd hx hno, fun hx => absurd hx hno, fun hx => absurd hx hno,
    fun hx => absurd hx hno, fun hx => absurd hx hno⟩

theorem noted_run {w : Counted P} (h : (watchMachine P).Reach Machine.free w) : Noted w :=
  h.invariant (I := Noted)
    (fun _ (hs : Server.Started _) => ⟨started_dated hs.1, started_dated hs.2.1⟩)
    fun _ _ _ _ _ hstep hI => noted_step hI hstep

/-! ## Opens -/

/-- The engine makes the session, and there is memory for its history. -/
def Opens (d : Daemon P) (env : Env) (j : Json) : Prop :=
  (P.E.create d.mo (Daemon.sessOptions j).1).2.isSome = true ∧ env.oom = false

/-- The runtime makes the chat. -/
def OpensChat (d : Daemon P) (j : Json) : Prop :=
  ∃ m, d.rt = some m ∧ (P.R.chatOpen m (chatOptions j).1).2.isSome = true

/-- An `open` that goes right: it is refused for its fields, or the slot that it
takes is free or that of the session used least recently, and then it succeeds. -/
def SafeOpen (d : Daemon P) (u : Uses) (env : Env) (j : Json) : Prop :=
  (Daemon.sessOptions j).2 = true ∨
    Unmistaken Sess.used (fun x => decide (env.now - x.used ≤ d.idleS)) d.sess u (Opens d env j)

def SafeChatOpen (d : Daemon P) (u : Uses) (j : Json) : Prop :=
  d.rt = none ∨ (chatOptions j).2 = true ∨
    Unmistaken Chat.used (fun _ => true) d.chats u (OpensChat d j)

/-- A session that was last used more than `--idle` seconds ago. -/
def Idle (d : Daemon P) (u : Uses) (env : Env) (i : Nat) : Prop :=
  d.idleS < env.now - (u.last i).time

/-- Nothing is destroyed in a table that stays as it is. -/
theorem fair_same {α : Type} (slots : List (Option α)) (u : Uses) (idle : Nat → Prop) (ok : Prop) :
    Fair slots slots u idle ok := by
  have hno : ∀ i, ¬ Destroyed slots slots i := fun i ⟨x, hx, hne⟩ => hne hx
  exact ⟨fun i hd => absurd hd (hno i), fun i _ hd => absurd hd (hno i),
    fun ⟨i, hd, _⟩ => absurd hd (hno i)⟩

theorem idle_iff {d : Daemon P} {u : Uses} {env : Env} (h : Dated Sess.used d.sess u env.now)
    (i : Nat) (x : Sess P.E) (hx : slot d.sess i = some x) :
    Idle d u env i ↔ decide (env.now - x.used ≤ d.idleS) = false := by
  rw [decide_eq_false_iff_not, h.time hx, Nat.not_le]
  rfl

/-- The two outcomes of an `open` past the check of its fields. -/
theorem opOpen_set {d : Daemon P} {env : Env} {j : Json} (hbad : (Daemon.sessOptions j).2 = false) :
    ∃ new, (d.opOpen env j).1.sess =
        (sessEvictIdle env.now d.idleS d.sess).set
          (slotFor Sess.used (sessEvictIdle env.now d.idleS d.sess)) new ∧
      (∀ x, new = some x → x.id = env.newId) ∧
      ((∃ id, (d.opOpen env j).2 = .session id) ↔ Opens d env j) := by
  unfold Daemon.opOpen Opens
  generalize Daemon.sessOptions j = o at hbad
  obtain ⟨o, bad⟩ := o
  simp only at hbad ⊢
  subst hbad
  rw [if_neg Bool.false_ne_true]
  rcases P.E.create d.mo o with ⟨mo, s | s⟩
  · exact ⟨none, rfl, fun _ h => (by cases h),
      ⟨fun ⟨_, h⟩ => (by cases h), fun h => (by cases h.1)⟩⟩
  · simp only
    cases hoom : env.oom with
    | true =>
        rw [if_pos rfl]
        exact ⟨none, rfl, fun _ h => (by cases h),
          ⟨fun ⟨_, h⟩ => (by cases h), fun h => (by cases h.2)⟩⟩
    | false =>
        rw [if_neg Bool.false_ne_true]
        exact ⟨_, rfl, fun _ h => by cases h; rfl, ⟨fun _ => ⟨rfl, rfl⟩, fun _ => ⟨_, rfl⟩⟩⟩

theorem opOpen_fair {d : Daemon P} {u : Uses} {env : Env} {j : Json}
    (h : Dated Sess.used d.sess u env.now) :
    (SafeOpen d u env j → Fair d.sess (d.opOpen env j).1.sess u (Idle d u env)
      (∃ id, (d.opOpen env j).2 = .session id)) ∧
    ((∀ i x, slot d.sess i = some x → x.id ≠ env.newId) →
      Fair d.sess (d.opOpen env j).1.sess u (Idle d u env)
        (∃ id, (d.opOpen env j).2 = .session id) → SafeOpen d u env j) := by
  cases hbad : (Daemon.sessOptions j).2 with
  | true =>
      have hsame : (d.opOpen env j).1.sess = d.sess := by
        unfold Daemon.opOpen
        simp only
        rw [if_pos hbad]
      rw [hsame]
      exact ⟨fun _ => fair_same _ _ _ _, fun _ _ => .inl hbad⟩
  | false =>
      obtain ⟨new, hset, hnew, hok⟩ := opOpen_set (d := d) hbad
      rw [hset, hok]
      refine ⟨fun hsafe => ?_, fun hfresh hfair => .inr ?_⟩
      · rcases hsafe with hsafe | hsafe
        · rw [hbad] at hsafe
          cases hsafe
        · exact fair_of_unmistaken new h (idle_iff h) hsafe
      · exact unmistaken_of_fair (idle_iff h)
          (fun i x hx heq => hfresh i x hx (hnew x heq)) hfair

theorem swept_all {α : Type} (slots : List (Option α)) : swept (fun _ => true) slots = slots := by
  rw [swept]
  conv_rhs => rw [← List.map_id slots]
  refine List.map_congr_left fun o _ => ?_
  cases o <;> rfl

theorem opChatOpen_set {d : Daemon P} {env : Env} {j : Json} {m : P.R.Model} (hrt : d.rt = some m)
    (hbad : (chatOptions j).2 = false) :
    ∃ new, (opChatOpen env.now env.newId d.rt d.chats j).2.1 =
        d.chats.set (slotFor Chat.used d.chats) new ∧
      (∀ x, new = some x → x.id = env.newId) ∧
      ((∃ ctx id, (opChatOpen env.now env.newId d.rt d.chats j).2.2 = .chat ctx id) ↔
        OpensChat d j) := by
  unfold opChatOpen OpensChat
  rw [hrt]
  generalize chatOptions j = o at hbad
  obtain ⟨o, bad⟩ := o
  simp only at hbad ⊢
  subst hbad
  rw [if_neg Bool.false_ne_true]
  cases hopen : P.R.chatOpen m o with
  | mk m' made =>
      cases made with
      | none =>
          refine ⟨none, rfl, fun _ h => (by cases h),
            ⟨fun ⟨_, _, h⟩ => (by cases h), fun ⟨m₁, hm, h⟩ => ?_⟩⟩
          cases hm
          rw [hopen] at h
          cases h
      | some c =>
          refine ⟨_, rfl, fun _ h => by cases h; rfl, ⟨fun _ => ⟨m, rfl, ?_⟩, fun _ => ⟨_, _, rfl⟩⟩⟩
          rw [hopen]
          rfl

theorem opChatOpen_fair {d : Daemon P} {u : Uses} {env : Env} {j : Json}
    (h : Dated Chat.used d.chats u env.now) :
    (SafeChatOpen d u j →
      Fair d.chats (opChatOpen env.now env.newId d.rt d.chats j).2.1 u (fun _ => False)
        (∃ ctx id, (opChatOpen env.now env.newId d.rt d.chats j).2.2 = .chat ctx id)) ∧
    ((∀ i x, slot d.chats i = some x → x.id ≠ env.newId) →
      Fair d.chats (opChatOpen env.now env.newId d.rt d.chats j).2.1 u (fun _ => False)
        (∃ ctx id, (opChatOpen env.now env.newId d.rt d.chats j).2.2 = .chat ctx id) →
      SafeChatOpen d u j) := by
  cases hrt : d.rt with
  | none => exact ⟨fun _ => fair_same _ _ _ _, fun _ _ => .inl hrt⟩
  | some m =>
      rw [← hrt]
      cases hbad : (chatOptions j).2 with
      | true =>
          have hsame : (opChatOpen env.now env.newId d.rt d.chats j).2.1 = d.chats := by
            unfold opChatOpen
            rw [hrt]
            simp only
            rw [if_pos hbad]
          rw [hsame]
          exact ⟨fun _ => fair_same _ _ _ _, fun _ _ => .inr (.inl hbad)⟩
      | false =>
          obtain ⟨new, hset, hnew, hok⟩ := opChatOpen_set hrt hbad
          have hidle : ∀ i x, slot d.chats i = some x → (False ↔ (true : Bool) = false) :=
            fun _ _ _ => ⟨False.elim, fun hf => by cases hf⟩
          have hall := swept_all d.chats
          rw [hset, hok]
          refine ⟨fun hsafe => ?_, fun hfresh hfair => .inr (.inr ?_)⟩
          · rcases hsafe with hsafe | hsafe | hsafe
            · rw [hrt] at hsafe
              cases hsafe
            · rw [hbad] at hsafe
              cases hsafe
            · have hfair := fair_of_unmistaken new h hidle hsafe
              rw [hall] at hfair
              exact hfair
          · refine unmistaken_of_fair hidle (fun i x hx heq => hfresh i x hx (hnew x heq)) ?_
            rw [hall]
            exact hfair

/-! ## Main result -/

/-- The new id is not the id of a live entry. -/
def NewId {α : Type} (id : α → CStr) (slots : List (Option α)) (newId : CStr) : Prop :=
  ∀ i x, slot slots i = some x → id x ≠ newId

/-- What the environment answers at time 0; the id is the number. -/
def at0 (n : UInt8) : Env := ⟨0, [n], false⟩

/-- An `open` without fields. -/
def openHeader : Json := [(lit "op", .str (lit "open"))]

def bareOpen : Frame := request "open" [] {}

/-- Two sessions are opened and the first of them is used, all in one second. -/
def busySecond : List Event :=
  [.accept 0 none, .frame 0 bareOpen (at0 1), .frame 0 bareOpen (at0 2),
    .frame 0 (request "reset" [("session", .str [1])] {}) (at0 3)]

/-- A daemon for two sessions and one chat. -/
def smallDaemon : Counted plain := ⟨⟨plainDaemon 2 1 none false, fun _ => none⟩, {}, {}, 0⟩

theorem smallDaemon_started : (watchMachine plain).Reach Machine.free smallDaemon := by
  refine .init ⟨fun i => ?_, fun i => ?_, fun _ => rfl⟩
  · change slot [none, none] i = none
    rcases i with _ | _ | _ <;> rfl
  · change slot [none] i = none
    rcases i with _ | _ <;> rfl

/-- Both sessions are live, the second was used before the first, and an `open`
destroys the first. -/
def evictsLater (w : Counted plain) : Bool :=
  (w.s.conns 0).any fun c =>
    let d := looked w.s.d (at0 4) openHeader
    let u := namedSess w.sess w.s.d (at0 4) openHeader
    (ranOp w.s.d c bareOpen).any (fun r => decide (r.1 = lit "open")) &&
    decide (w.clock ≤ 0) && (slot d.sess 1).isSome && decide ((u.last 1).nth < (u.last 0).nth) &&
    decide ((slot d.sess 0).map Sess.id = some [1]) && decide ((u.last 0).time = 0) &&
    decide ((slot (handle w.s.d (at0 4) bareOpen c).1.sess 0).map Sess.id = some [4])

end GeistServe.Proofs
