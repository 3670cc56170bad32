import GeistServe.Geistd.Handle

/-!
# What a frame can do to the chat table

A chat is only ever worked on by an op that names its id; every other frame
leaves it as it is or ends it, and a new chat comes in under the new id, in one
slot. `handle_chats` says this once for every frame, so that a client may reason
about its own chat without looking at the ops of others. That an id names at
most one live chat is kept by every frame whose new id is not in use.
-/

namespace GeistServe.Proofs

open GeistServe.Geistd

variable {P : Platform} {R : Runtime}

/-! ## Finding a chat -/

theorem slot_of_found {α : Type} {p : α → Bool} {slots : List (Option α)} {i : Nat}
    (h : slots.findIdx? (fun x => x.any p) = some i) :
    ∃ x, slot slots i = some x ∧ p x = true := by
  obtain ⟨hlt, hx, _⟩ := List.findIdx?_eq_some_iff_getElem.mp h
  cases hslot : slots[i] with
  | none =>
      rw [hslot] at hx
      cases hx
  | some x =>
      rw [hslot] at hx
      refine ⟨x, ?_, hx⟩
      rw [slot, List.getElem?_eq_getElem hlt, hslot]
      rfl

theorem chatFind_slot {chats : List (Option (Chat R))} {named : Option CStr} {i : Nat}
    (h : chatFind chats named = some i) :
    ∃ x, slot chats i = some x ∧ named = some x.id := by
  unfold chatFind at h
  split at h
  · cases h
  · next id =>
      obtain ⟨x, hx, hid⟩ := slot_of_found h
      exact ⟨x, hx, congrArg some (of_decide_eq_true hid).symm⟩

/-- An id names at most one live chat. -/
def UniqueIds (chats : List (Option (Chat R))) : Prop :=
  ∀ i j x y, slot chats i = some x → slot chats j = some y → x.id = y.id → i = j

theorem chatFind_unique {chats : List (Option (Chat R))} (hu : UniqueIds chats) {i : Nat}
    {x : Chat R} (hx : slot chats i = some x) : chatFind chats (some x.id) = some i := by
  cases hfind : chatFind chats (some x.id) with
  | some j =>
      obtain ⟨y, hy, hid⟩ := chatFind_slot hfind
      rw [hu j i y x hy hx (Option.some.inj hid).symm]
  | none =>
      have hall := List.findIdx?_eq_none_iff.mp hfind
      have hlt := slot_lt hx
      have hmem : some x ∈ chats := by
        rw [slot, List.getElem?_eq_getElem hlt, Option.join_some] at hx
        exact hx ▸ List.getElem_mem hlt
      have := hall _ hmem
      simp at this

/-! ## One slot -/

/-- What one frame can do to one slot of the chat table. -/
inductive ChatTurn (named : Option CStr) (newId : CStr) (new : Prop) :
    Option (Chat R) → Option (Chat R) → Prop where
  | keep (o : Option (Chat R)) : ChatTurn named newId new o o
  | gone (x : Chat R) : ChatTurn named newId new (some x) none
  | work {x y : Chat R} (hid : y.id = x.id) (hc : named = some x.id ∨ y.c = x.c) :
      ChatTurn named newId new (some x) (some y)
  | opened {o : Option (Chat R)} {c : R.Chat} {used : Nat} (hnew : new) :
      ChatTurn named newId new o (some ⟨newId, c, used⟩)

/-- A chat that is live after the turn is new, or was live and was worked on only
if it was named. -/
theorem ChatTurn.back {named : Option CStr} {newId : CStr} {new : Prop}
    {o : Option (Chat R)} {y : Chat R} (h : ChatTurn named newId new o (some y)) :
    (new ∧ y.id = newId) ∨
      ∃ x, o = some x ∧ y.id = x.id ∧ (named = some x.id ∨ y.c = x.c) := by
  cases h with
  | keep => exact .inr ⟨y, rfl, rfl, .inr rfl⟩
  | work hid hc => exact .inr ⟨_, rfl, hid, hc⟩
  | opened hnew => exact .inl ⟨hnew, rfl⟩

/-- A new time of use, and then a turn, is a turn. -/
theorem ChatTurn.touched {named : Option CStr} {newId : CStr} {new : Prop} {x : Chat R}
    {now : Nat} {o' : Option (Chat R)}
    (h : ChatTurn named newId new (some { x with used := now }) o') :
    ChatTurn named newId new (some x) o' := by
  cases h with
  | keep => exact .work rfl (.inr rfl)
  | gone => exact .gone x
  | work hid hc => exact .work hid hc
  | opened hnew => exact .opened hnew

/-- What a whole frame does: every slot takes a turn, and at most one slot, `k`,
gets the new chat. -/
def ChatTurns (named : Option CStr) (newId : CStr) (new : Prop)
    (chats chats' : List (Option (Chat R))) : Prop :=
  ∃ k, ∀ i, ChatTurn named newId (new ∧ i = k) (slot chats i) (slot chats' i)

theorem ChatTurns.same {named : Option CStr} {newId : CStr} {new : Prop}
    {chats chats' : List (Option (Chat R))} (h : chats' = chats) :
    ChatTurns named newId new chats chats' :=
  ⟨0, fun _ => h ▸ .keep _⟩

theorem ChatTurns.unique {named : Option CStr} {newId : CStr} {new : Prop}
    {chats chats' : List (Option (Chat R))} (h : ChatTurns named newId new chats chats')
    (hu : UniqueIds chats)
    (hfree : new → ∀ i x, slot chats i = some x → x.id ≠ newId) : UniqueIds chats' := by
  obtain ⟨k, hturn⟩ := h
  intro i j x y hx hy hid
  rcases (hx ▸ hturn i).back with ⟨⟨hnew, hi⟩, hxid⟩ | ⟨x₀, hx₀, hxid, _⟩
  · rcases (hy ▸ hturn j).back with ⟨⟨_, hj⟩, _⟩ | ⟨y₀, hy₀, hyid, _⟩
    · exact hi.trans hj.symm
    · exact absurd ((hyid.symm.trans hid.symm).trans hxid) (hfree hnew j y₀ hy₀)
  · rcases (hy ▸ hturn j).back with ⟨⟨hnew, _⟩, hyid⟩ | ⟨y₀, hy₀, hyid, _⟩
    · exact absurd ((hxid.symm.trans hid).trans hyid) (hfree hnew i x₀ hx₀)
    · exact hu i j x₀ y₀ hx₀ hy₀ ((hxid.symm.trans hid).trans hyid)

/-! ## The ops -/

theorem findSess_chats (d : Daemon P) (env : Env) (id : Option CStr) :
    (d.findSess env id).1.chats = d.chats := by
  unfold Daemon.findSess
  split <;> rfl

theorem onSess_chats (d : Daemon P) (k : Option Nat) (miss : String)
    (f : Sess P.E → Sess P.E × Reply) : (d.onSess k miss f).1.chats = d.chats := by
  unfold Daemon.onSess
  split <;> rfl

theorem opOpen_chats (d : Daemon P) (env : Env) (j : Json) :
    (d.opOpen env j).1.chats = d.chats := by
  unfold Daemon.opOpen
  simp only
  split
  · rfl
  · split
    · rfl
    · split <;> rfl

theorem opTokenize_chats (d : Daemon P) (j : Json) :
    (d.opTokenize j).1.chats = d.chats := by
  unfold Daemon.opTokenize
  split
  · rfl
  · simp only
    split
    · rfl
    · split <;> rfl

theorem opPeek_chats (d : Daemon P) (k : Option Nat) : (d.opPeek k).1.chats = d.chats := by
  unfold Daemon.opPeek
  split
  · rfl
  · simp only
    split <;> rfl

theorem opClose_chats (d : Daemon P) (k : Option Nat) : (d.opClose k).1.chats = d.chats := by
  unfold Daemon.opClose
  split <;> rfl

theorem generate_chats (d : Daemon P) (k : Option Nat) (j : Json) (c : Conn) :
    (d.generate k j c).1.chats = d.chats := by
  unfold Daemon.generate
  split <;> rfl

/-- Finding a chat changes its time of use and nothing else. -/
theorem findChat_slot (d : Daemon P) (env : Env) (id : Option CStr) (i : Nat) :
    slot (d.findChat env id).1.chats i = slot d.chats i ∨
      ∃ x, slot d.chats i = some x ∧
        slot (d.findChat env id).1.chats i = some { x with used := env.now } := by
  unfold Daemon.findChat
  split
  · exact .inl rfl
  · simp only
    rw [slot_modify]
    split
    · cases slot d.chats i with
      | none => exact .inl rfl
      | some x => exact .inr ⟨x, rfl, rfl⟩
    · exact .inl rfl

/-- The found chat carries the id that was asked for. -/
theorem findChat_found {d : Daemon P} {env : Env} {named : Option CStr} {i : Nat}
    {x : Chat P.R} (hi : (d.findChat env named).2 = some i)
    (hx : slot (d.findChat env named).1.chats i = some x) : named = some x.id := by
  have hfind : chatFind d.chats named = some i := by
    unfold Daemon.findChat at hi
    split at hi
    · cases hi
    · next h =>
        cases hi
        exact h
  obtain ⟨y, hy, hid⟩ := chatFind_slot hfind
  rcases findChat_slot d env named i with h | ⟨y', hy', h⟩
  · rw [hx, hy] at h
    exact Option.some.inj h ▸ hid
  · rw [hy'] at hy
    rw [hx] at h
    cases hy
    cases h
    exact hid

/-- A new chat needs the runtime's model, and leaves it there. -/
theorem opChatOpen_turns {now : Nat} {newId : CStr} {named : Option CStr}
    {rt : Option R.Model} {chats : List (Option (Chat R))} {j : Json} {new : Prop}
    (hnew : new) :
    ChatTurns named newId (new ∧ (opChatOpen now newId rt chats j).1.isSome) chats
      (opChatOpen now newId rt chats j).2.1 := by
  unfold opChatOpen
  split
  · exact .same rfl
  · simp only
    split
    · exact .same rfl
    · refine ⟨slotFor Chat.used chats, fun i => ?_⟩
      have hgone : ∀ {new : Prop}, ChatTurn named newId new (slot chats i) none := by
        intro new
        cases slot chats i with
        | none => exact .keep _
        | some x => exact .gone x
      split
      · rw [slot_set]
        split
        · split <;> exact hgone
        · exact .keep _
      · rw [slot_set]
        split
        · next hi =>
            split
            · exact .opened ⟨⟨hnew, rfl⟩, hi.symm⟩
            · exact hgone
        · exact .keep _

theorem opChatOpen_rt {now : Nat} {newId : CStr} {rt : Option R.Model}
    {chats : List (Option (Chat R))} {j : Json} (h : rt.isSome) :
    (opChatOpen now newId rt chats j).1.isSome := by
  unfold opChatOpen
  split
  · exact h
  · simp only
    split
    · exact h
    · split <;> rfl

/-- Writing the found chat back, worked on or gone, is a turn of its slot. -/
theorem set_turns {d : Daemon P} {env : Env} {named : Option CStr} {newId : CStr}
    {new : Prop} {i : Nat} {x : Chat P.R} {v : Option (Chat P.R)}
    (hi : (d.findChat env named).2 = some i)
    (hx : slot (d.findChat env named).1.chats i = some x)
    (hv : ∀ y, v = some y → y.id = x.id) :
    ChatTurns named newId new (d.findChat env named).1.chats
      ((d.findChat env named).1.chats.set i v) := by
  refine ⟨0, fun k => ?_⟩
  rw [slot_set_live hx]
  split
  · next hik =>
      subst hik
      rw [hx]
      cases v with
      | none => exact .gone x
      | some y => exact .work (hv y rfl) (.inl (findChat_found hi hx))
  · exact .keep _

theorem chatOp_turns (d : Daemon P) (env : Env) (op : CStr) (j : Json) (body : Body)
    (c : Conn) :
    ChatTurns (jsonStrdup (jsonGet j "chat")) env.newId
      (op = lit "chat_open" ∧ (d.chatOp env op j body c).1.rt.isSome) d.chats
      (d.chatOp env op j body c).1.chats := by
  generalize hn : jsonStrdup (jsonGet j "chat") = named
  -- The turns are taken by the table that has already noted the time of use.
  suffices hturns : ChatTurns named env.newId
      (op = lit "chat_open" ∧ (d.chatOp env op j body c).1.rt.isSome)
      (d.findChat env named).1.chats (d.chatOp env op j body c).1.chats by
    obtain ⟨k, hturn⟩ := hturns
    refine ⟨k, fun i => ?_⟩
    have h := hturn i
    rcases findChat_slot d env named i with heq | ⟨x, hx, heq⟩
    · rwa [heq] at h
    · rw [hx]
      rw [heq] at h
      exact h.touched
  unfold Daemon.chatOp
  rw [hn]
  simp only
  split
  · next hop => exact opChatOpen_turns hop
  · split
    · split
      · exact .same rfl
      · next heq =>
          obtain ⟨k, hk, hm⟩ := Option.bind_eq_some_iff.mp heq
          obtain ⟨x, hx, hpair⟩ := Option.map_eq_some_iff.mp hm
          cases hpair
          exact set_turns hk hx fun y hy => by cases hy; rfl
    · split
      · exact .same rfl
      · next heq =>
          obtain ⟨k, hk, hm⟩ := Option.bind_eq_some_iff.mp heq
          obtain ⟨x, hx, hpair⟩ := Option.map_eq_some_iff.mp hm
          cases hpair
          split
          · exact set_turns hk hx fun y hy => by cases hy; rfl
          · split
            · exact set_turns hk hx fun y hy => by cases hy
            · exact .same rfl

theorem dispatch_chats (d : Daemon P) (env : Env) (op : CStr) (j : Json) (body : Body)
    (c : Conn) :
    ChatTurns (jsonStrdup (jsonGet j "chat")) env.newId
      (op = lit "chat_open" ∧ (dispatch d env op j body c).1.rt.isSome) d.chats
      (dispatch d env op j body c).1.chats := by
  generalize hsid : jsonStrdup (jsonGet j "session") = sid
  have hfind := findSess_chats d env sid
  generalize hd : d.findSess env sid = found at hfind
  obtain ⟨d', x⟩ := found
  have hfind : d'.chats = d.chats := hfind
  rw [← hfind]
  unfold dispatch
  rw [hsid, hd]
  let Turned (r : Daemon P × Conn × Bool) : Prop :=
    ChatTurns (jsonStrdup (jsonGet j "chat")) env.newId
      (op = lit "chat_open" ∧ r.1.rt.isSome) d'.chats r.1.chats
  have branch : ∀ {q : Prop} [Decidable q] {a b : Daemon P × Conn × Bool},
      Turned a → Turned b → Turned (if q then a else b) :=
    fun ha hb => iteInduction (motive := Turned) (fun _ => ha) fun _ => hb
  have sess : ∀ {k miss f}, Turned (Daemon.say c (d'.onSess k miss f)) :=
    .same (onSess_chats _ _ _ _)
  exact branch (.same rfl) <| branch (.same rfl) <| branch sess <|
    branch (.same (opOpen_chats _ _ _)) <| branch (.same (opTokenize_chats _ _)) <|
    branch sess <| branch sess <| branch (.same (opPeek_chats _ _)) <| branch sess <|
    branch (.same (generate_chats _ _ _ _)) <| branch sess <| branch sess <|
    branch (chatOp_turns _ _ _ _ _ _) <| branch (.same (opClose_chats _ _)) (.same rfl)

/-- What a frame can do to the chat table. -/
theorem handle_chats (d : Daemon P) (env : Env) (f : Frame) (c : Conn) :
    ChatTurns (chatOf f) env.newId
      (opOf f = some (lit "chat_open") ∧ (handle d env f c).1.rt.isSome) d.chats
      (handle d env f c).1.chats := by
  unfold handle
  split
  · exact .same rfl
  · next j hj =>
      split
      · exact .same rfl
      · next op hop =>
          simp only
          split
          · split <;> exact .same rfl
          · split
            · exact .same rfl
            · have hop' : opOf f = some op := by
                rw [opOf, Frame.field, hj]
                exact hop
              rw [hop', chatOf, Frame.field, hj, Option.some.injEq]
              exact dispatch_chats d env op j f.body _

end GeistServe.Proofs
