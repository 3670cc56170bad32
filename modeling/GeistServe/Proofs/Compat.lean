import GeistServe.Proofs.ChatWire
import GeistServe.Proofs.Elements
import GeistServe.Proofs.Growth
import GeistServe.Proofs.Primitive

/-!
# `app_chat_parse` reads the documented request

On a text of an object the parser of the chat request gives a chat if and only if the members
have it (`chat_parse_exactly`). `Means` says so over the tree: nothing in it knows of tokens, of
positions or of the arena. A full arena refuses the request and never changes it.

Every part of the parser has one lemma, in the form `Reads`: it goes on with the one value that
the tree has there, or it refuses.
-/

namespace GeistServe.Compat

open GeistServe.Lib GeistServe.Geistd GeistServe.Json

/-! ## What a request means -/

/-- The text of a string, if there is no U+0000 in it. -/
def textOf : Tree → Option CStr
  | .str raw => if 0 ∈ unescape raw then none else some (unescape raw)
  | _ => none

/-- The text of a part of a content. -/
def partText (v : Tree) : Option CStr :=
  if (v.get (lit "type")).bind textOf = some (lit "text") then (v.get (lit "text")).bind textOf
  else none

def contentText : Tree → Option CStr
  | .str raw => textOf (.str raw)
  | .arr xs => (xs.mapM partText).map List.flatten
  | _ => none

/-- The tree is a message of the conversation. -/
structure MessageOf (v : Tree) (m : Message) : Prop where
  object : v.type = .object
  role : (v.get (lit "role")).bind textOf = some m.role
  known : m.role = lit "user" ∨ m.role = lit "assistant" ∨ m.role = lit "system"
  calls : v.get (lit "tool_calls") = none ∧ v.get (lit "function_call") = none
  content : (v.get (lit "content")).bind contentText = some m.content

/-- The number of a primitive that starts as one. -/
def numOf : Tree → Double
  | .prim (c :: s) => if c = 45 ∨ (48 ≤ c ∧ c ≤ 57) then strtod (c :: s) else .nan
  | _ => .nan

/-- What a member with a number may be. -/
def Number.Allows (v : ℚ) : Number → Prop
  | .maxTokens | .maxCompletionTokens => 1 ≤ v ∧ v ≤ 4095 ∧ v = v.floor.toNat
  | .temperature => 0 ≤ v ∧ v ≤ 2
  | .topP => 0 < v ∧ v ≤ 1
  | .n => v = 1

/-- The number of a member, if it is there. -/
def given (ms : List (Bytes × Tree)) (number : Number) : Option ℚ :=
  (lookup number.key ms).bind fun v =>
    match numOf v with
    | .fin q => some q
    | _ => none

/-- A flag: absent, or one of the two words. -/
def FlagOf (v : Option Tree) (b : Bool) : Prop :=
  (v = none ∧ b = false) ∨ (v = some (.prim (lit "true")) ∧ b = true) ∨
    (v = some (.prim (lit "false")) ∧ b = false)

/-- The members that may be there although they are not supported. -/
def Harmless (member : CStr × Bool) (v : Option Tree) : Prop :=
  v = none ∨ (member.2 = true ∧ v = some (.arr [])) ∨
    (member.1 = lit "tool_choice" ∧ v.bind textOf = some (lit "none"))

/-- The members of a request, and the chat that they ask for. -/
structure Means (ms : List (Bytes × Tree)) (c : Chat) : Prop where
  keys : (ms.map Prod.fst).Nodup
  prims : ∀ raw ∈ memberPrims ms,
    raw = lit "true" ∨ raw = lit "false" ∨ raw = lit "null" ∨ IsNumber raw
  supported : ∀ member ∈ unsupported, Harmless member (lookup member.1 ms)
  model : (lookup (lit "model") ms).bind textOf = some c.model ∧ c.model ≠ []
  messages : ∃ xs, lookup (lit "messages") ms = some (.arr xs) ∧ xs ≠ [] ∧
    xs.length ≤ APP_CHAT_MESSAGES ∧ List.Forall₂ MessageOf xs c.messages
  numbers : ∀ (number : Number) (v : Tree), lookup number.key ms = some v → ∃ q, numOf v = .fin q ∧ number.Allows q
  maxTokens : c.maxTokens =
    ((given ms .maxCompletionTokens).or (given ms .maxTokens)).elim 256 (·.floor.toNat)
  temperature : c.temperature = FLOAT.round ((given ms .temperature).getD (1 / 5))
  topP : c.topP = (given ms .topP).elim 1 FLOAT.round
  stream : FlagOf (lookup (lit "stream") ms) c.stream
  options : ∀ v, lookup (lit "stream_options") ms = some v → v.type = .object
  includeUsage : FlagOf ((lookup (lit "stream_options") ms).bind (·.get (lit "include_usage")))
    c.includeUsage

/-! ## Steps -/

/-- How a part of the parser ends that looks for a value with the property. -/
inductive Outcome {α : Type} (P : α → Prop) : Except Refusal α → Bool → Prop where
  | ok {v : α} (h : P v) : Outcome P (.ok v) false
  | error {e : Refusal} (h : ∀ v, ¬ P v) : Outcome P (.error e) false
  | refused {e : Refusal} : Outcome P (.error e) true

def Reads {α : Type} (m : Step α) (P : α → Prop) : Prop :=
  ∀ a : Room, a.refused = false → Outcome P (m a).1 (m a).2.refused

section

variable {α β : Type} {P : α → Prop} {Q : α → β → Prop} {m : Step α} {f : α → Step β}

theorem bind_step (a : Room) : (m >>= f) a = ExceptT.bindCont f (m a).1 (m a).2 := rfl

theorem bind_ok {a : Room} {v : α} (h : (m a).1 = .ok v) : (m >>= f) a = f v (m a).2 := by
  rw [bind_step, h]
  rfl

theorem bind_error {a : Room} {e : Refusal} (h : (m a).1 = .error e) :
    (m >>= f) a = (.error e, (m a).2) := by
  rw [bind_step, h]
  rfl

theorem Reads.congr {P' : α → Prop} (h : Reads m P) (heq : ∀ v, P v ↔ P' v) : Reads m P' :=
  (funext fun v => propext (heq v) : P = P') ▸ h

theorem Reads.bind (hm : Reads m P) (hunique : ∀ v w, P v → P w → v = w)
    (hf : ∀ v, P v → Reads (f v) (Q v)) : Reads (m >>= f) fun w => ∃ v, P v ∧ Q v w := by
  intro a ha
  have hfirst := hm a ha
  generalize hr : (m a).1 = r at hfirst
  generalize hb : (m a).2.refused = b at hfirst
  cases hfirst with
  | @ok v h =>
      rw [bind_ok hr]
      have hsecond := hf v h (m a).2 hb
      generalize (f v (m a).2).1 = r' at hsecond
      generalize (f v (m a).2).2.refused = b' at hsecond
      cases hsecond with
      | ok hq => exact .ok ⟨v, h, hq⟩
      | error hnone =>
          refine .error fun w ⟨v', h', hq⟩ => ?_
          exact hnone w (hunique v' v h' h ▸ hq)
      | refused => exact .refused
  | error hnone =>
      rw [bind_error hr, hb]
      exact .error fun w ⟨v, h, _⟩ => hnone v h
  | refused =>
      rw [bind_error hr, hb]
      exact .refused

theorem reads_pure (v : α) : Reads (pure v : Step α) (· = v) := by
  intro a ha
  show Outcome _ (.ok v) a.refused
  rw [ha]
  exact .ok rfl

theorem reads_throw (e : Refusal) (h : ∀ v, ¬ P v) : Reads (throw e : Step α) P := by
  intro a ha
  show Outcome _ (.error e) a.refused
  rw [ha]
  exact .error h

theorem reads_lift {r : Except Refusal α} (hok : ∀ v, r = .ok v → P v)
    (herror : ∀ e, r = .error e → ∀ v, ¬ P v) : Reads (liftExcept r) P := by
  intro a ha
  show Outcome P r a.refused
  rw [ha]
  cases r with
  | ok v => exact .ok (hok v rfl)
  | error e => exact .error (herror e rfl)

end

/-! ## Trees in the text -/

section

variable {j : Doc} {i : Nat} {v : Tree}

theorem isType_shows (h : Shows j i v) (type : JType) : isType j i type = (v.type == type) := by
  obtain ⟨t, ht, htype, _⟩ := h.tok
  rw [isType, ht, Option.any_some, htype]

theorem sizeOf_shows (h : Shows j i v) : sizeOf j i = v.size := by
  obtain ⟨t, ht, _, hsize⟩ := h.tok
  rw [sizeOf, ht]
  exact hsize

/-- The bytes of a primitive. -/
def primOf : Tree → Option Bytes
  | .prim raw => some raw
  | _ => none

theorem prim_shows (h : Shows j i v) : j.prim? (some i) = primOf v := by
  obtain ⟨t, ht, htype, _⟩ := h.tok
  rw [Doc.prim?, Option.bind_some, ht, Option.filter_some, htype]
  cases v with
  | str | arr | obj => rfl
  | prim raw =>
      obtain ⟨u, hu, _, htext⟩ := h.raw (show (Tree.prim raw).raw? = some raw from rfl)
      cases ht.symm.trans hu
      show some (j.text t) = some raw
      rw [htext]

theorem num_shows (h : Shows j i v) : j.num (some i) .nan = numOf v := by
  rw [Doc.num, prim_shows h]
  cases v with
  | str | arr | obj => rfl
  | prim raw =>
      cases raw with
      | nil => rfl
      | cons c s => rfl

theorem lookup_valid {ms : List (Bytes × Tree)} {key : Bytes} {w : Tree} (h : ValidMembers ms)
    (hw : lookup key ms = some w) : w.Valid := by
  induction ms with
  | nil => cases hw
  | cons m ms ih =>
      obtain ⟨k, x⟩ := m
      by_cases hk : k = key
      · rw [hk, lookup_cons_eq] at hw
        injection hw with hw
        exact hw ▸ h.2.1
      · rw [lookup_cons_ne x ms hk] at hw
        exact ih h.2.2 hw

theorem get_valid {w : Tree} {key : Bytes} (h : v.Valid) (hw : v.get key = some w) : w.Valid := by
  cases v with
  | obj ms => exact lookup_valid h hw
  | str | prim | arr => cases hw

theorem items_valid {xs : List Tree} (h : ValidItems xs) : ∀ x ∈ xs, x.Valid := by
  induction xs with
  | nil => exact fun x hx => absurd hx List.not_mem_nil
  | cons x xs ih =>
      intro y hy
      rcases List.mem_cons.mp hy with rfl | hy
      · exact h.1
      · exact ih h.2 y hy

/-- What is found under a key: a text of the tree there, which is well formed. -/
structure Held (j : Doc) (v : Option Tree) (r : Option Nat) : Prop where
  shown : Shown j v r
  valid : ∀ w, v = some w → w.Valid

theorem shows_held (h : Shows j i v) (hv : v.Valid) (key : Bytes) :
    Held j (v.get key) (j.get i key) :=
  ⟨h.found key, fun _ hw => get_valid hv hw⟩

theorem Held.isSome {v : Option Tree} {r : Option Nat} (h : Held j v r) : r.isSome = v.isSome := by
  rcases h.shown with ⟨rfl, rfl⟩ | ⟨w, k, rfl, rfl, _⟩
  · rfl
  · rfl

end

/-! ## Strings -/

section

variable {j : Doc} {v : Option Tree} {r : Option Nat} {β : Type} {R : β → Prop}

theorem alloc_refused (a : Room) (n : Nat) :
    ((a.alloc n).1 = true ∧ (a.alloc n).2.refused = a.refused) ∨
      ((a.alloc n).1 = false ∧ (a.alloc n).2.refused = true) := by
  rw [Room.alloc]
  split
  · exact .inl ⟨rfl, rfl⟩
  · exact .inr ⟨rfl, rfl⟩

/-- `string` reads the text of the tree, unless the arena is full. -/
theorem string_run (h : Held j v r) (a : Room) :
    ((string j r a).1 = .ok (v.bind textOf) ∧ (string j r a).2.refused = a.refused) ∨
      ((string j r a).1 = .ok none ∧ (string j r a).2.refused = true) := by
  rcases h.shown with ⟨rfl, rfl⟩ | ⟨w, k, rfl, rfl, hshows⟩
  · exact .inl ⟨rfl, rfl⟩
  · obtain ⟨t, ht, htype, _⟩ := hshows.tok
    have hstr : j.str? (some k) = if v₀ : w.type = .string then some t else none := by
      rw [Doc.str?, Option.bind_some, ht, Option.filter_some, htype]
      by_cases hw : w.type = .string
      · rw [dif_pos hw, hw]
        rfl
      · rw [dif_neg hw, if_neg (by simpa using hw)]
    rw [string, hstr, Option.bind_some]
    cases w with
    | prim | arr | obj => exact .inl ⟨rfl, rfl⟩
    | str raw =>
        have hvalid : Quotable raw := h.valid _ rfl
        obtain ⟨u, hu, _, htext⟩ := hshows.raw (show (Tree.str raw).raw? = some raw from rfl)
        cases ht.symm.trans hu
        rw [dif_pos (show (Tree.str raw).type = .string from rfl)]
        dsimp only
        rw [htext, textOf]
        by_cases hnul : (0 : UInt8) ∈ unescape raw
        · rw [if_pos hnul, if_pos ((nulEscape_iff hvalid).mpr hnul)]
          exact .inl ⟨rfl, rfl⟩
        · have hall : (unescape raw).takeWhile (· ≠ 0) = unescape raw := by
            rw [List.takeWhile_eq_self_iff]
            intro c hc
            have hne : c ≠ 0 := fun h0 => hnul (h0 ▸ hc)
            simpa using hne
          rw [if_neg hnul, if_neg fun hc => hnul ((nulEscape_iff hvalid).mp hc), hall]
          rcases alloc_refused a ((unescape raw).length + 1) with ⟨hgiven, hsame⟩ | ⟨hdenied, hfull⟩
          · rw [if_pos hgiven]
            exact .inl ⟨rfl, hsame⟩
          · rw [if_neg (by rw [hdenied]; decide)]
            exact .inr ⟨rfl, hfull⟩

theorem string_refused (h : Held j v r) {a : Room} (ha : a.refused = true) :
    (string j r a).2.refused = true := by
  rcases string_run h a with ⟨_, hsame⟩ | ⟨_, hfull⟩
  · exact hsame.trans ha
  · exact hfull

theorem reads_string {f : Option CStr → Step β} (h : Held j v r)
    (hf : Reads (f (v.bind textOf)) R)
    (hnone : ∀ a : Room, a.refused = true → ∃ e, (f none a).1 = .error e ∧
      (f none a).2.refused = true) : Reads (string j r >>= f) R := by
  intro a ha
  rcases string_run h a with ⟨hread, hsame⟩ | ⟨hread, hfull⟩
  · rw [bind_ok hread]
    exact hf _ (hsame.trans ha)
  · rw [bind_ok hread]
    obtain ⟨e, herror, hrefused⟩ := hnone _ hfull
    rw [herror, hrefused]
    exact .refused

theorem reads_need (h : Held j v r) : Reads (need j r) fun s => v.bind textOf = some s := by
  refine reads_string h ?_ fun a ha => ⟨badRequest, rfl, ha⟩
  cases hv : v.bind textOf with
  | none =>
      rw [if_pos rfl]
      exact reads_throw _ fun s hs => by cases hs
  | some s =>
      rw [if_neg (Option.some_ne_none s)]
      refine (reads_pure s).congr fun s' => ?_
      exact ⟨fun hs => hs ▸ rfl, fun hs => (Option.some.inj hs).symm⟩

end

/-! ## Contents -/

theorem textOf_length {v : Tree} {s : CStr} (h : textOf v = some s) : s.length ≤ v.print.length := by
  cases v with
  | prim | arr | obj => cases h
  | str raw =>
      rw [textOf] at h
      split at h
      · cases h
      · injection h with h
        have hlen := unescape_length_le raw
        rw [Tree.print, List.length_cons, List.length_append, ← h]
        omega

theorem lookup_length {key : Bytes} {w : Tree} : ∀ (ms : List (Bytes × Tree)) (sep : Bytes),
    lookup key ms = some w → w.print.length ≤ (printMembers sep ms).length
  | (k, x) :: ms, sep, h => by
      rw [printMembers]
      simp only [List.length_append, List.length_cons]
      by_cases hk : k = key
      · rw [hk, lookup_cons_eq] at h
        injection h with h
        rw [← h]
        omega
      · rw [lookup_cons_ne x ms hk] at h
        have := lookup_length ms [44] h
        omega

theorem partText_length {x : Tree} {s : CStr} (h : partText x = some s) :
    s.length ≤ x.print.length := by
  rw [partText] at h
  split at h
  · obtain ⟨w, hw, hs⟩ := Option.bind_eq_some_iff.mp h
    cases x with
    | str | prim | arr => cases hw
    | obj ms =>
        have hmember := lookup_length ms [] hw
        have htext := textOf_length hs
        rw [Tree.print, List.length_cons, List.length_append]
        omega
  · cases h

theorem mapM_cons_some {α β : Type} {f : α → Option β} {x : α} {xs : List α} {ys : List β} :
    (x :: xs).mapM f = some ys ↔ ∃ y rest, f x = some y ∧ xs.mapM f = some rest ∧
      ys = y :: rest := by
  rw [List.mapM_cons]
  constructor
  · intro h
    obtain ⟨y, hy, h⟩ := Option.bind_eq_some_iff.mp h
    obtain ⟨rest, hrest, h⟩ := Option.bind_eq_some_iff.mp h
    exact ⟨y, rest, hy, hrest, (Option.some.inj h).symm⟩
  · rintro ⟨y, rest, hy, hrest, rfl⟩
    rw [hy, hrest]
    rfl

section

variable {j : Doc}

theorem reads_part {k : Nat} {x : Tree} (h : Shows j k x) (hv : x.Valid) (b : App.Buffer) :
    Reads (contentPart j b k) fun b' => ∃ s, partText x = some s ∧ b' = b.put s := by
  have htype := shows_held h hv (lit "type")
  have htext := shows_held h hv (lit "text")
  refine reads_string htype (reads_string htext ?_ fun a ha => ?_) fun a ha => ?_
  · rw [partText]
    by_cases hc : (x.get (lit "type")).bind textOf = some (lit "text") ∧
        (x.get (lit "text")).bind textOf ≠ none
    · obtain ⟨s, hs⟩ := Option.ne_none_iff_exists'.mp hc.2
      rw [if_pos hc, if_pos hc.1, hs]
      refine (reads_pure (b.put s)).congr fun b' => ?_
      exact ⟨fun hb => ⟨s, rfl, hb⟩, fun ⟨s', hs', hb⟩ => Option.some.inj hs' ▸ hb⟩
    · rw [if_neg hc]
      refine reads_throw _ fun b' ⟨s, hs, _⟩ => hc ?_
      split at hs
      · next htypeText => exact ⟨htypeText, by rw [hs]; exact Option.some_ne_none s⟩
      · cases hs
  · rw [if_neg fun hc => hc.2 rfl]
    exact ⟨_, rfl, ha⟩
  · have hkept := string_refused htext ha
    rcases string_run htext a with ⟨hread, _⟩ | ⟨hread, _⟩
    · rw [bind_ok hread, if_neg fun hc => by cases hc.1]
      exact ⟨_, rfl, hkept⟩
    · rw [bind_ok hread, if_neg fun hc => by cases hc.1]
      exact ⟨_, rfl, hkept⟩

/-- The parts of a content. The buffer has room for them: a text is no longer than it is written. -/
theorem reads_parts {ks : List Nat} {xs : List Tree} (h : List.Forall₂ (Shows j) ks xs)
    (hv : ValidItems xs) (sep : Bytes) {b : App.Buffer} (hok : b.failed = false)
    (hroom : b.data.length + (printItems sep xs).length < b.cap) :
    Reads (contentParts j b ks) fun b' =>
      ∃ ss, xs.mapM partText = some ss ∧ b' = { b with data := b.data ++ ss.flatten } := by
  induction h generalizing b sep with
  | nil =>
      refine (reads_pure b).congr fun b' => ⟨fun hb => ⟨[], rfl, ?_⟩, fun ⟨ss, hss, hb⟩ => ?_⟩
      · rw [hb, List.flatten_nil, List.append_nil]
      · rw [List.mapM_nil] at hss
        cases hss
        rw [hb, List.flatten_nil, List.append_nil]
  | @cons k x ks xs hx _ ih =>
      rw [printItems, List.length_append, List.length_append] at hroom
      have hpart := reads_part hx hv.1 b
      refine (hpart.bind (Q := fun b₁ b' => ∃ ss, xs.mapM partText = some ss ∧
        b' = { b₁ with data := b₁.data ++ ss.flatten }) ?_ ?_).congr ?_
      · rintro b₁ b₂ ⟨s, hs, rfl⟩ ⟨s', hs', rfl⟩
        cases hs.symm.trans hs'
        rfl
      · rintro b₁ ⟨s, hs, rfl⟩
        have hlen := partText_length hs
        have hput : b.put s = { b with data := b.data ++ s } := by
          rw [App.Buffer.put, if_neg]
          rw [not_or]
          exact ⟨by rw [hok]; decide, by omega⟩
        rw [hput]
        refine ih hv.2 [44] hok ?_
        show (b.data ++ s).length + _ < b.cap
        rw [List.length_append]
        omega
      · intro b'
        have hput {s : CStr} (hs : partText x = some s) :
            b.put s = { b with data := b.data ++ s } := by
          have hlen := partText_length hs
          rw [App.Buffer.put, if_neg]
          rw [not_or]
          exact ⟨by rw [hok]; decide, by omega⟩
        constructor
        · rintro ⟨b₁, ⟨s, hs, rfl⟩, ss, hss, rfl⟩
          refine ⟨s :: ss, mapM_cons_some.mpr ⟨s, ss, hs, hss, rfl⟩, ?_⟩
          rw [hput hs, List.flatten_cons, List.append_assoc]
        · rintro ⟨ss, hss, rfl⟩
          obtain ⟨s, rest, hs, hrest, rfl⟩ := mapM_cons_some.mp hss
          refine ⟨_, ⟨s, hs, rfl⟩, rest, hrest, ?_⟩
          rw [hput hs, List.flatten_cons, List.append_assoc]

theorem reads_grant {n : Nat} {β : Type} {R : β → Prop} {rest : Step β} {e : Refusal}
    (h : Reads rest R) : Reads (grant n >>= fun given => if given then rest else throw e) R := by
  intro a ha
  rcases alloc_refused a n with ⟨hgiven, hsame⟩ | ⟨hdenied, hfull⟩
  · have hrun : (grant n a).1 = .ok true := by rw [grant, hgiven]
    rw [bind_ok hrun]
    exact h _ (hsame.trans ha)
  · have hrun : (grant n a).1 = .ok false := by rw [grant, hdenied]
    rw [bind_ok hrun]
    show Outcome R (.error e) (a.alloc n).2.refused
    rw [hfull]
    exact .refused

theorem reads_content {v : Option Tree} {r : Option Nat} (h : Held j v r) :
    Reads (content j r) fun s => v.bind contentText = some s := by
  rcases h.shown with ⟨rfl, rfl⟩ | ⟨w, k, rfl, rfl, hshows⟩
  · exact reads_throw _ fun s hs => by cases hs
  · have hstring := isType_shows hshows .string
    have harray := isType_shows hshows .array
    rw [content, hstring, harray]
    cases w with
    | str raw => exact reads_need h
    | prim | obj => exact reads_throw _ fun s hs => by cases hs
    | arr xs =>
        have hvalid : ValidItems xs := h.valid _ rfl
        have hspan := span_shows hshows
        refine reads_grant ?_
        have hparts := reads_parts (elements_shows hshows hvalid) hvalid []
          (b := { cap := spanOf j k + 1 }) rfl (by
            show 0 + _ < spanOf j k + 1
            omega)
        refine (hparts.bind (Q := fun b s => b.failed = false ∧ s = b.data) ?_ ?_).congr ?_
        · rintro b₁ b₂ ⟨ss, hss, rfl⟩ ⟨ss', hss', rfl⟩
          cases hss.symm.trans hss'
          rfl
        · rintro b ⟨ss, hss, rfl⟩
          rw [if_neg Bool.false_ne_true]
          exact (reads_pure _).congr fun s => ⟨fun hs => ⟨rfl, hs⟩, fun hs => hs.2⟩
        · intro s
          rw [Option.bind_some, contentText]
          constructor
          · rintro ⟨b, ⟨ss, hss, rfl⟩, -, rfl⟩
            rw [hss]
            rfl
          · intro hs
            obtain ⟨ss, hss, rfl⟩ := Option.map_eq_some_iff.mp hs
            exact ⟨_, ⟨ss, hss, rfl⟩, rfl, rfl⟩

end

/-! ## Messages -/

section

variable {j : Doc}

theorem MessageOf.unique {v : Tree} {m n : Message} (hm : MessageOf v m) (hn : MessageOf v n) :
    m = n := by
  have hrole := Option.some.inj (hm.role.symm.trans hn.role)
  have hcontent := Option.some.inj (hm.content.symm.trans hn.content)
  cases m
  cases n
  dsimp only at hrole hcontent
  rw [hrole, hcontent]

theorem reads_message {i : Nat} {v : Tree} (h : Shows j i v) (hv : v.Valid)
    (hobject : v.type = .object) : Reads (message j i) (MessageOf v) := by
  have hcalls := shows_held h hv (lit "tool_calls")
  have hfunction := shows_held h hv (lit "function_call")
  refine ((reads_need (shows_held h hv (lit "role"))).bind
    (Q := fun role m => MessageOf v m ∧ m.role = role) ?_ ?_).congr ?_
  · intro s s' hs hs'
    exact Option.some.inj (hs.symm.trans hs')
  · intro role hrole
    by_cases hknown : role ≠ lit "user" ∧ role ≠ lit "assistant" ∧ role ≠ lit "system"
    · rw [if_pos hknown]
      refine reads_throw _ fun m ⟨hm, hr⟩ => ?_
      rcases hm.known with hu | ha | hs
      · exact hknown.1 (hr.symm.trans hu)
      · exact hknown.2.1 (hr.symm.trans ha)
      · exact hknown.2.2 (hr.symm.trans hs)
    · rw [if_neg hknown]
      rw [hcalls.isSome, hfunction.isSome]
      by_cases hhistory : (v.get (lit "tool_calls")).isSome = true ∨
          (v.get (lit "function_call")).isSome = true
      · rw [if_pos hhistory]
        refine reads_throw _ fun m ⟨hm, _⟩ => ?_
        rw [hm.calls.1, hm.calls.2] at hhistory
        rcases hhistory with hc | hc
        · cases hc
        · cases hc
      · rw [if_neg hhistory]
        refine ((reads_content (shows_held h hv (lit "content"))).bind
          (Q := fun content m => m = ⟨role, content⟩) ?_ ?_).congr ?_
        · intro s s' hs hs'
          exact Option.some.inj (hs.symm.trans hs')
        · exact fun content _ => reads_pure _
        · intro m
          constructor
          · rintro ⟨content, hcontent, rfl⟩
            rw [not_or, Option.not_isSome_iff_eq_none, Option.not_isSome_iff_eq_none] at hhistory
            refine ⟨⟨hobject, hrole, ?_, hhistory, hcontent⟩, rfl⟩
            by_cases hu : role = lit "user"
            · exact .inl hu
            · by_cases ha : role = lit "assistant"
              · exact .inr (.inl ha)
              · refine .inr (.inr ?_)
                by_cases hs : role = lit "system"
                · exact hs
                · exact absurd ⟨hu, ha, hs⟩ hknown
          · rintro ⟨hm, rfl⟩
            exact ⟨m.content, hm.content, rfl⟩
  · intro m
    exact ⟨fun ⟨_, _, hm, _⟩ => hm, fun hm => ⟨m.role, hm.role, hm, rfl⟩⟩

theorem forall₂_unique {xs : List Tree} {ms ns : List Message}
    (hm : List.Forall₂ MessageOf xs ms) (hn : List.Forall₂ MessageOf xs ns) : ms = ns := by
  induction hm generalizing ns with
  | nil =>
      cases hn
      rfl
  | cons hx _ ih =>
      cases hn with
      | cons hy hys => rw [hx.unique hy, ih hys]

theorem reads_messages {ks : List Nat} {xs : List Tree} (h : List.Forall₂ (Shows j) ks xs)
    (hv : ValidItems xs) (ns : List Message) (hns : ns.length ≤ APP_CHAT_MESSAGES) :
    Reads (messages j ns ks) fun out =>
      ∃ ms, List.Forall₂ MessageOf xs ms ∧ out = ns ++ ms ∧ out.length ≤ APP_CHAT_MESSAGES := by
  induction h generalizing ns with
  | nil =>
      refine (reads_pure ns).congr fun out => ⟨fun ho => ⟨[], .nil, ?_, ho ▸ hns⟩, ?_⟩
      · rw [ho, List.append_nil]
      · rintro ⟨ms, hms, rfl, _⟩
        cases hms
        rw [List.append_nil]
  | @cons k x ks xs hx _ ih =>
      rw [messages]
      by_cases hbad : isType j k .object = false ∨ ns.length = APP_CHAT_MESSAGES
      · rw [if_pos hbad]
        refine reads_throw _ fun out ⟨ms, hms, hout, hlen⟩ => ?_
        cases hms with
        | @cons _ m _ ms hm _ =>
            rcases hbad with htype | hfull
            · rw [isType_shows hx, hm.object] at htype
              cases htype
            · rw [hout, List.length_append, List.length_cons] at hlen
              omega
      · rw [if_neg hbad]
        rw [not_or] at hbad
        have hobject : x.type = .object := by
          have htype := hbad.1
          rw [isType_shows hx, Bool.not_eq_false, beq_iff_eq] at htype
          exact htype
        refine ((reads_message hx hv.1 hobject).bind (Q := fun m out =>
          ∃ ms, List.Forall₂ MessageOf xs ms ∧ out = ns ++ [m] ++ ms ∧
            out.length ≤ APP_CHAT_MESSAGES) ?_ ?_).congr ?_
        · exact fun m n hm hn => hm.unique hn
        · intro m _
          refine ih hv.2 (ns ++ [m]) ?_
          rw [List.length_append, List.length_singleton]
          omega
        · intro out
          constructor
          · rintro ⟨m, hm, ms, hms, rfl, hlen⟩
            exact ⟨m :: ms, .cons hm hms, by rw [List.append_assoc]; rfl, hlen⟩
          · rintro ⟨ms, hms, rfl, hlen⟩
            cases hms with
            | @cons _ m _ ms hm hms =>
                exact ⟨m, hm, ms, hms, by rw [List.append_assoc]; rfl, hlen⟩

end

/-! ## Members -/

section

variable {j : Doc} {ms : List (Bytes × Tree)}

theorem reads_member {v : Option Tree} {member : CStr × Bool} (h : Held j v (j.get 0 member.1)) :
    Reads (refuseMember j member) fun _ => Harmless member v := by
  have hempty : ((j.get 0 member.1).all fun i =>
      member.2 && isType j i .array && decide (sizeOf j i = 0)) = true ↔
        v = none ∨ (member.2 = true ∧ v = some (.arr [])) := by
    rcases h.shown with ⟨rfl, hr⟩ | ⟨w, k, rfl, hr, hshows⟩
    · rw [hr]
      exact ⟨fun _ => .inl rfl, fun _ => rfl⟩
    · rw [hr, Option.all_some, isType_shows hshows, sizeOf_shows hshows]
      simp only [Bool.and_eq_true, decide_eq_true_eq, beq_iff_eq]
      constructor
      · rintro ⟨⟨hallowed, htype⟩, hsize⟩
        cases w with
        | str | prim | obj => cases htype
        | arr xs =>
            rw [List.eq_nil_of_length_eq_zero hsize]
            exact .inr ⟨hallowed, rfl⟩
      · rintro (hnone | ⟨hallowed, hw⟩)
        · cases hnone
        · cases hw
          exact ⟨⟨hallowed, rfl⟩, rfl⟩
  rw [refuseMember]
  by_cases hpass : ((j.get 0 member.1).all fun i =>
      member.2 && isType j i .array && decide (sizeOf j i = 0)) = true
  · rw [if_pos hpass]
    have hharmless : Harmless member v := by
      rcases hempty.mp hpass with hnone | hempty
      · exact .inl hnone
      · exact .inr (.inl hempty)
    exact (reads_pure ()).congr fun _ => ⟨fun _ => hharmless, fun _ => rfl⟩
  · rw [if_neg hpass]
    by_cases hchoice : member.1 = lit "tool_choice"
    · rw [if_pos hchoice]
      refine reads_string h ?_ fun a ha => ⟨⟨422, textOnly⟩, ?_, ?_⟩
      · by_cases htext : v.bind textOf = some (lit "none")
        · rw [if_pos htext]
          exact (reads_pure ()).congr fun _ =>
            ⟨fun _ => .inr (.inr ⟨hchoice, htext⟩), fun _ => rfl⟩
        · rw [if_neg htext]
          refine reads_throw _ fun _ hharmless => ?_
          rcases hharmless with hnone | hempty' | hnamed
          · exact hpass (hempty.mpr (.inl hnone))
          · exact hpass (hempty.mpr (.inr hempty'))
          · exact htext hnamed.2
      · rw [if_neg (by decide)]
        rfl
      · rw [if_neg (by decide)]
        exact ha
    · rw [if_neg hchoice]
      refine reads_throw _ fun _ hharmless => ?_
      rcases hharmless with hnone | hempty' | hnamed
      · exact hpass (hempty.mpr (.inl hnone))
      · exact hpass (hempty.mpr (.inr hempty'))
      · exact hchoice hnamed.1

theorem reads_members (h : Shows j 0 (.obj ms)) (hv : ValidMembers ms) :
    ∀ members : List (CStr × Bool), Reads (refuseMembers j members) fun _ =>
      ∀ member ∈ members, Harmless member (lookup member.1 ms)
  | [] => (reads_pure ()).congr fun _ =>
      ⟨fun _ _ hmem => absurd hmem List.not_mem_nil, fun _ => rfl⟩
  | member :: members => by
      have hheld : Held j (lookup member.1 ms) (j.get 0 member.1) := shows_held h hv member.1
      refine ((reads_member hheld).bind (Q := fun _ _ => ∀ member ∈ members,
        Harmless member (lookup member.1 ms)) ?_ ?_).congr ?_
      · exact fun _ _ _ _ => rfl
      · exact fun _ _ => reads_members h hv members
      · intro _
        rw [List.forall_mem_cons]
        exact ⟨fun ⟨_, hfirst, hrest⟩ => ⟨hfirst, hrest⟩, fun hall => ⟨(), hall.1, hall.2⟩⟩

/-! ## Numbers and flags -/

/-- A number is taken over. -/
def Number.put (c : Chat) (v : ℚ) : Number → Chat
  | .maxTokens | .maxCompletionTokens => { c with maxTokens := v.floor.toNat }
  | .temperature => { c with temperature := FLOAT.round v }
  | .topP => { c with topP := FLOAT.round v }
  | .n => c

theorem Number.set_iff {c c' : Chat} {v : ℚ} (number : Number) :
    number.set c v = .ok c' ↔ number.Allows v ∧ c' = number.put c v := by
  have hchoose {p q : Prop} [Decidable p] {e : Refusal} {c₁ : Chat} (hpq : ¬ p ↔ q) :
      (if p then Except.error e else .ok c₁) = .ok c' ↔ q ∧ c' = c₁ := by
    by_cases hp : p
    · rw [if_pos hp]
      exact ⟨fun h => (by cases h), fun h => absurd hp (hpq.mpr h.1)⟩
    · rw [if_neg hp]
      exact ⟨fun h => ⟨hpq.mp hp, (Except.ok.inj h).symm⟩, fun h => congrArg _ h.2.symm⟩
  cases number with
  | maxTokens | maxCompletionTokens =>
      refine hchoose ?_
      rw [not_or, not_or, not_lt, not_lt, not_not]
      rfl
  | temperature =>
      refine hchoose ?_
      rw [not_or, not_lt, not_lt]
      rfl
  | topP =>
      refine hchoose ?_
      rw [not_or, not_le, not_lt]
      rfl
  | n => exact hchoose not_not

/-- What the members say of a number. -/
def Allowed (ms : List (Bytes × Tree)) (number : Number) : Prop :=
  ∀ v, lookup number.key ms = some v → ∃ q, numOf v = .fin q ∧ number.Allows q

def after (ms : List (Bytes × Tree)) (c : Chat) (number : Number) : Chat :=
  (given ms number).elim c (number.put c)

theorem Number.read_iff (h : Shows j 0 (.obj ms)) {c c' : Chat} (number : Number) :
    number.read j c = .ok c' ↔ Allowed ms number ∧ c' = after ms c number := by
  rw [Number.read, Allowed, after, given]
  rcases h.found number.key with ⟨hnone, hr⟩ | ⟨v, k, hsome, hr, hshows⟩
  · have hlookup : lookup number.key ms = none := hnone
    rw [hr, hlookup]
    refine ⟨fun hok => ⟨fun v hv => (by cases hv), (Except.ok.inj hok).symm⟩, fun hok => ?_⟩
    exact congrArg _ hok.2.symm
  · have hlookup : lookup number.key ms = some v := hsome
    rw [hr, hlookup, Option.bind_some]
    dsimp only
    rw [num_shows hshows]
    cases hnum : numOf v with
    | fin q =>
        dsimp only
        rw [number.set_iff]
        constructor
        · rintro ⟨hallows, rfl⟩
          refine ⟨fun w hw => ?_, rfl⟩
          cases hw
          exact ⟨q, hnum, hallows⟩
        · rintro ⟨hallowed, rfl⟩
          obtain ⟨q', hq', hallows⟩ := hallowed v rfl
          rw [hnum] at hq'
          injection hq' with hq'
          exact ⟨hq' ▸ hallows, rfl⟩
    | inf neg | nan =>
        refine ⟨fun hok => (by cases hok), fun ⟨hallowed, _⟩ => ?_⟩
        obtain ⟨q, hq, _⟩ := hallowed v rfl
        rw [hnum] at hq
        cases hq

theorem foldl_read (h : Shows j 0 (.obj ms)) : ∀ (list : List Number) {c c' : Chat},
    list.foldlM (Number.read j) c = .ok c' ↔
      (∀ number ∈ list, Allowed ms number) ∧ c' = list.foldl (after ms) c
  | [], c, c' => by
      refine ⟨fun hok => ⟨fun _ hmem => absurd hmem List.not_mem_nil, ?_⟩, fun hok => ?_⟩
      · exact (Except.ok.inj hok).symm
      · exact congrArg _ hok.2.symm
  | number :: list, c, c' => by
      rw [List.foldlM_cons, List.forall_mem_cons, List.foldl_cons]
      constructor
      · intro hok
        cases hread : number.read j c with
        | error e =>
            rw [hread] at hok
            cases hok
        | ok c₁ =>
            rw [hread] at hok
            obtain ⟨hallowed, rfl⟩ := (number.read_iff h).mp hread
            obtain ⟨hall, hc'⟩ := (foldl_read h list).mp hok
            exact ⟨⟨hallowed, hall⟩, hc'⟩
      · rintro ⟨⟨hallowed, hall⟩, hc'⟩
        rw [(number.read_iff h).mpr ⟨hallowed, rfl⟩]
        exact (foldl_read h list).mpr ⟨hall, hc'⟩

theorem flag_iff {v : Option Tree} {r : Option Nat} (h : Shown j v r) {b : Bool} :
    flag j r = .ok b ↔ FlagOf v b := by
  rw [flag]
  rcases h with ⟨rfl, rfl⟩ | ⟨w, k, rfl, rfl, hshows⟩
  · rw [if_neg fun hc => by cases hc.1]
    refine ⟨fun hok => .inl ⟨rfl, (Except.ok.inj hok).symm⟩, fun hflag => ?_⟩
    rcases hflag with ⟨_, rfl⟩ | ⟨hw, _⟩ | ⟨hw, _⟩
    · rfl
    · cases hw
    · cases hw
  · have hliteral (value : CStr) : literal j (some k) value = decide (primOf w = some value) := by
      rw [literal, prim_shows hshows]
    have hprim {value : CStr} : primOf w = some value ↔ w = .prim value := by
      cases w with
      | str | arr | obj => exact ⟨fun h => (by cases h), fun h => (by cases h)⟩
      | prim raw => exact ⟨fun h => (by cases h; rfl), fun h => (by cases h; rfl)⟩
    rw [hliteral, hliteral, Doc.bool, prim_shows hshows]
    by_cases htrue : w = .prim (lit "true")
    · subst htrue
      rw [if_neg fun hc => by cases hc.2.1]
      constructor
      · intro hok
        exact .inr (.inl ⟨rfl, (Except.ok.inj hok).symm⟩)
      · rintro (⟨hw, _⟩ | ⟨_, rfl⟩ | ⟨hw, _⟩)
        · cases hw
        · rfl
        · cases hw
    · by_cases hfalse : w = .prim (lit "false")
      · subst hfalse
        rw [if_neg fun hc => by cases hc.2.2]
        constructor
        · intro hok
          exact .inr (.inr ⟨rfl, (Except.ok.inj hok).symm⟩)
        · rintro (⟨hw, _⟩ | ⟨hw, _⟩ | ⟨_, rfl⟩)
          · cases hw
          · cases hw
          · rfl
      · rw [if_pos ⟨rfl, decide_eq_false fun hc => htrue (hprim.mp hc),
          decide_eq_false fun hc => hfalse (hprim.mp hc)⟩]
        refine ⟨fun hok => (by cases hok), fun hflag => ?_⟩
        rcases hflag with ⟨hw, _⟩ | ⟨hw, _⟩ | ⟨hw, _⟩
        · cases hw
        · exact absurd (Option.some.inj hw) htrue
        · exact absurd (Option.some.inj hw) hfalse

theorem FlagOf.unique {v : Option Tree} {b c : Bool} (hb : FlagOf v b) (hc : FlagOf v c) :
    b = c := by
  rcases hb with ⟨rfl, rfl⟩ | ⟨rfl, rfl⟩ | ⟨rfl, rfl⟩
  · rcases hc with ⟨_, rfl⟩ | ⟨hw, _⟩ | ⟨hw, _⟩
    · rfl
    · cases hw
    · cases hw
  · rcases hc with ⟨hw, _⟩ | ⟨_, rfl⟩ | ⟨hw, _⟩
    · cases hw
    · rfl
    · cases hw
  · rcases hc with ⟨hw, _⟩ | ⟨hw, _⟩ | ⟨_, rfl⟩
    · cases hw
    · cases hw
    · rfl

theorem reads_flag {v : Option Tree} {r : Option Nat} (h : Shown j v r) :
    Reads (liftExcept (flag j r)) (FlagOf v) :=
  reads_lift (fun _ hok => (flag_iff h).mp hok) fun e herror b hflag => by
    rw [(flag_iff h).mpr hflag] at herror
    cases herror

def allNumbers : List Number := [.maxTokens, .maxCompletionTokens, .temperature, .topP, .n]

theorem mem_allNumbers (number : Number) : number ∈ allNumbers := by
  cases number with
  | maxTokens => exact List.mem_cons_self
  | maxCompletionTokens => exact List.mem_cons_of_mem _ List.mem_cons_self
  | temperature => exact List.mem_cons_of_mem _ (List.mem_cons_of_mem _ List.mem_cons_self)
  | topP | n => exact List.mem_of_mem_drop (i := 3) (by simp [allNumbers])

/-- What is behind the messages, over the tree. -/
structure Options (ms : List (Bytes × Tree)) (base c : Chat) : Prop where
  numbers : ∀ number, Allowed ms number
  stream : FlagOf (lookup (lit "stream") ms) c.stream
  options : ∀ v, lookup (lit "stream_options") ms = some v → v.type = .object
  includeUsage : FlagOf ((lookup (lit "stream_options") ms).bind (·.get (lit "include_usage")))
    c.includeUsage
  rest : c = { allNumbers.foldl (after ms) base with
    stream := c.stream, includeUsage := c.includeUsage }

theorem reads_options (h : Shows j 0 (.obj ms)) (base : Chat) :
    Reads (options j base) (Options ms base) := by
  have hnumbers : Reads (liftExcept (numbers j base)) fun c =>
      (∀ number ∈ allNumbers, Allowed ms number) ∧ c = allNumbers.foldl (after ms) base :=
    reads_lift (fun _ hok => (foldl_read h allNumbers).mp hok) fun e herror c hc => by
      have hok := (foldl_read h allNumbers).mpr hc
      rw [numbers] at herror
      rw [allNumbers] at hok
      rw [hok] at herror
      cases herror
  have hstream := reads_flag (h.found (lit "stream"))
  have hoptions := h.found (lit "stream_options")
  refine (hnumbers.bind (Q := fun c₁ c => FlagOf (lookup (lit "stream") ms) c.stream ∧
    (∀ v, lookup (lit "stream_options") ms = some v → v.type = .object) ∧
    FlagOf ((lookup (lit "stream_options") ms).bind (·.get (lit "include_usage")))
      c.includeUsage ∧ c = { c₁ with stream := c.stream, includeUsage := c.includeUsage }) ?_ ?_).congr
      ?_
  · rintro c₁ c₂ ⟨_, rfl⟩ ⟨_, rfl⟩
    rfl
  · rintro c₁ -
    refine (hstream.bind (Q := fun stream c =>
      (∀ v, lookup (lit "stream_options") ms = some v → v.type = .object) ∧
      FlagOf ((lookup (lit "stream_options") ms).bind (·.get (lit "include_usage")))
        c.includeUsage ∧ c = { c₁ with stream := stream, includeUsage := c.includeUsage }) ?_
        ?_).congr ?_
    · exact fun _ _ hb hc => hb.unique hc
    · intro stream _
      have husage : Shown j ((lookup (lit "stream_options") ms).bind (·.get (lit "include_usage")))
          ((j.get 0 (lit "stream_options")).bind fun t => j.get t (lit "include_usage")) := by
        rcases hoptions with ⟨hnone, hr⟩ | ⟨w, k, hsome, hr, hshows⟩
        · have hlookup : lookup (lit "stream_options") ms = none := hnone
          rw [hr, hlookup]
          exact .inl ⟨rfl, rfl⟩
        · have hlookup : lookup (lit "stream_options") ms = some w := hsome
          rw [hr, hlookup]
          exact hshows.found (lit "include_usage")
      have hobject : ((j.get 0 (lit "stream_options")).any fun t => !isType j t .object) = true ↔
          ¬ ∀ v, lookup (lit "stream_options") ms = some v → v.type = .object := by
        rcases hoptions with ⟨hnone, hr⟩ | ⟨w, k, hsome, hr, hshows⟩
        · have hlookup : lookup (lit "stream_options") ms = none := hnone
          rw [hr, hlookup]
          exact ⟨fun hc => (by cases hc), fun hall => absurd (fun v hv => (by cases hv)) hall⟩
        · have hlookup : lookup (lit "stream_options") ms = some w := hsome
          rw [hr, hlookup, Option.any_some, isType_shows hshows, Bool.not_eq_true']
          constructor
          · intro htype hall
            rw [hall w rfl] at htype
            cases htype
          · intro hall
            rw [beq_eq_false_iff_ne]
            exact fun htype => hall fun v hv => Option.some.inj hv ▸ htype
      by_cases hbad : ((j.get 0 (lit "stream_options")).any fun t => !isType j t .object) = true
      · rw [if_pos hbad]
        exact reads_throw _ fun c hc => hobject.mp hbad hc.1
      · rw [if_neg hbad]
        refine ((reads_flag husage).bind (Q := fun usage c =>
          c = { c₁ with stream := stream, includeUsage := usage }) ?_ ?_).congr ?_
        · exact fun _ _ hb hc => hb.unique hc
        · exact fun usage _ => reads_pure _
        · intro c
          constructor
          · rintro ⟨usage, hflag, rfl⟩
            exact ⟨not_not.mp fun hn => hbad (hobject.mpr hn), hflag, rfl⟩
          · rintro ⟨_, hflag, hc⟩
            exact ⟨c.includeUsage, hflag, hc⟩
    · intro c
      constructor
      · rintro ⟨stream, hflag, hobject, husage, hc⟩
        have hs : c.stream = stream := by rw [hc]
        exact ⟨hs ▸ hflag, hobject, husage, hs ▸ hc⟩
      · rintro ⟨hflag, hobject, husage, hc⟩
        exact ⟨c.stream, hflag, hobject, husage, hc⟩
  · intro c
    constructor
    · rintro ⟨c₁, ⟨hall, rfl⟩, hstream, hobject, husage, hc⟩
      exact ⟨fun number => hall number (mem_allNumbers number), hstream, hobject, husage, hc⟩
    · rintro ⟨hall, hstream, hobject, husage, hc⟩
      exact ⟨_, ⟨fun number _ => hall number, rfl⟩, hstream, hobject, husage, hc⟩

/-! ## The whole request -/

theorem after_all (base : Chat) : allNumbers.foldl (after ms) base =
    { base with
      maxTokens := ((given ms .maxCompletionTokens).or (given ms .maxTokens)).elim base.maxTokens
        (·.floor.toNat)
      temperature := (given ms .temperature).elim base.temperature FLOAT.round
      topP := (given ms .topP).elim base.topP FLOAT.round } := by
  rw [allNumbers]
  simp only [List.foldl_cons, List.foldl_nil, after]
  cases given ms .maxTokens with
  | none | some =>
      cases given ms .maxCompletionTokens with
      | none | some =>
          cases given ms .temperature with
          | none | some =>
              cases given ms .topP with
              | none | some =>
                  cases given ms .n with
                  | none | some => rfl

/-- The parts of a request, put together. -/
theorem means_iff (c : Chat) : Means ms c ↔
    ((∀ raw ∈ memberPrims ms, validPrimitive raw = true) ∧ (ms.map Prod.fst).Nodup) ∧
      (∀ member ∈ unsupported, Harmless member (lookup member.1 ms)) ∧
      ∃ model xs, (lookup (lit "model") ms).bind textOf = some model ∧ model ≠ [] ∧
        lookup (lit "messages") ms = some (.arr xs) ∧ xs ≠ [] ∧
        ∃ ns, List.Forall₂ MessageOf xs ns ∧ ns.length ≤ APP_CHAT_MESSAGES ∧
          Options ms { messages := ns, model := model } c := by
  constructor
  · intro h
    obtain ⟨xs, hxs, hne, hlen, hns⟩ := h.messages
    refine ⟨⟨fun raw hraw => validPrimitive_iff.mpr (h.prims raw hraw), h.keys⟩, h.supported,
      c.model, xs, h.model.1, h.model.2, hxs, hne, c.messages, hns, hns.length_eq ▸ hlen, ?_⟩
    refine ⟨h.numbers, h.stream, h.options, h.includeUsage, ?_⟩
    rw [after_all]
    have htokens := h.maxTokens
    have htemperature := h.temperature
    have htop := h.topP
    cases c
    dsimp only at htokens htemperature htop ⊢
    rw [htokens, htemperature, htop]
    cases given ms .temperature with
    | none | some => rfl
  · rintro ⟨⟨hprims, hkeys⟩, hsupported, model, xs, hmodel, hne, hxs, hitems, ns, hns, hlen, ho⟩
    have hrest := ho.rest
    rw [after_all] at hrest
    have hmessages : c.messages = ns := by rw [hrest]
    have hname : c.model = model := by rw [hrest]
    refine
      { keys := hkeys
        prims := fun raw hraw => validPrimitive_iff.mp (hprims raw hraw)
        supported := hsupported
        model := hname ▸ ⟨hmodel, hne⟩
        messages := ⟨xs, hxs, hitems, hns.length_eq ▸ hlen, hmessages ▸ hns⟩
        numbers := ho.numbers
        maxTokens := by rw [hrest]
        temperature := ?_
        topP := by rw [hrest]
        stream := ho.stream
        options := ho.options
        includeUsage := ho.includeUsage }
    rw [hrest]
    dsimp only
    cases given ms .temperature with
    | none | some => rfl

/-- The messages and what is behind them, when there is an array of them and a model. -/
theorem reads_conversation {j : Doc} {k : Nat} {w : Tree} {model : Option CStr}
    (h : Shows j 0 (.obj ms)) (hshows : Shows j k w) (hw : w.Valid) :
    Reads (if model = none ∨ model = some [] ∨ (w.type == .array) = false ∨ w.size = 0 then
        throw badRequest
      else do
        let ns ← messages j [] (elements j k)
        if ns = [] then throw badRequest
        else options j { messages := ns, model := model.getD [] }) fun c =>
      ∃ name xs, model = some name ∧ name ≠ [] ∧ some w = some (.arr xs) ∧ xs ≠ [] ∧
        ∃ ns, List.Forall₂ MessageOf xs ns ∧ ns.length ≤ APP_CHAT_MESSAGES ∧
          Options ms { messages := ns, model := name } c := by
  by_cases hbad : model = none ∨ model = some [] ∨ (w.type == .array) = false ∨ w.size = 0
  · rw [if_pos hbad]
    refine reads_throw _ fun c ⟨name, xs, hmodel, hname, hxs, hne, _⟩ => ?_
    cases hxs
    rw [hmodel] at hbad
    rcases hbad with hnone | hempty | htype | hsize
    · cases hnone
    · exact hname (Option.some.inj hempty)
    · cases htype
    · exact hne (List.eq_nil_of_length_eq_zero hsize)
  · rw [if_neg hbad]
    simp only [not_or] at hbad
    obtain ⟨hsome, hname, htype, hsize⟩ := hbad
    obtain ⟨name, rfl⟩ := Option.ne_none_iff_exists'.mp hsome
    cases w with
    | str | prim | obj => exact absurd rfl htype
    | arr xs =>
        have hne : xs ≠ [] := fun hnil => hsize (by rw [hnil]; rfl)
        refine ((reads_messages (elements_shows hshows hw) hw [] (Nat.zero_le _)).bind
          (Q := fun ns c => Options ms { messages := ns, model := name } c) ?_ ?_).congr ?_
        · rintro ns ns' ⟨ms₁, hms₁, rfl, _⟩ ⟨ms₂, hms₂, rfl, _⟩
          exact forall₂_unique hms₁ hms₂
        · rintro ns ⟨ms₁, hms₁, rfl, _⟩
          rw [if_neg]
          · exact reads_options h _
          · intro hnil
            have hnone : ns = [] := hnil
            subst hnone
            cases hms₁
            exact hne rfl
        · intro c
          constructor
          · rintro ⟨ns, ⟨ms₁, hms₁, rfl, hlen⟩, ho⟩
            exact ⟨name, xs, rfl, fun hnil => hname (by rw [hnil]), rfl, hne, _, hms₁, hlen, ho⟩
          · rintro ⟨name', xs', hmodel, _, hxs, _, ns, hns, hlen, ho⟩
            cases hmodel
            cases hxs
            exact ⟨ns, ⟨ns, hns, rfl, hlen⟩, ho⟩

theorem reads_chat {j : Doc} (htwin : Twin j (printed ms)) (h : Shows j 0 (.obj ms))
    (hv : ValidMembers ms) : Reads (chatOf j) (Means ms) := by
  rw [chatOf]
  by_cases hscan : scan j [] (j.tok.drop 1) = true
  · have hspelled := (scan_twin htwin).mp hscan
    rw [if_neg (by rw [hscan]; decide)]
    have hmodel := shows_held h hv (lit "model")
    have hmessages := shows_held h hv (lit "messages")
    refine ((reads_members h hv unsupported).bind (Q := fun _ c =>
      ∃ model xs, (lookup (lit "model") ms).bind textOf = some model ∧ model ≠ [] ∧
        lookup (lit "messages") ms = some (.arr xs) ∧ xs ≠ [] ∧
        ∃ ns, List.Forall₂ MessageOf xs ns ∧ ns.length ≤ APP_CHAT_MESSAGES ∧
          Options ms { messages := ns, model := model } c) ?_ ?_).congr ?_
    · exact fun _ _ _ _ => rfl
    · intro _ _
      refine reads_string hmodel ?_ fun a ha => ?_
      · rcases hmessages.shown with ⟨hnone, hr⟩ | ⟨w, k, hsome, hr, hshows⟩
        · have hlookup : lookup (lit "messages") ms = none := hnone
          rw [hr]
          refine reads_throw _ fun c ⟨model, xs, _, _, hxs, _⟩ => ?_
          rw [hlookup] at hxs
          cases hxs
        · have hlookup : lookup (lit "messages") ms = some w := hsome
          have hw : w.Valid := hmessages.valid w hsome
          rw [hr, hlookup]
          dsimp only
          rw [isType_shows hshows, sizeOf_shows hshows]
          exact reads_conversation h hshows hw
      · rcases hmessages.shown with ⟨hnone, hr⟩ | ⟨w, k, hsome, hr, hshows⟩
        · rw [hr]
          exact ⟨_, rfl, ha⟩
        · rw [hr]
          dsimp only
          rw [if_pos (.inl rfl)]
          exact ⟨_, rfl, ha⟩
    · intro c
      rw [means_iff]
      exact ⟨fun ⟨_, hsupported, hrest⟩ => ⟨hspelled, hsupported, hrest⟩,
        fun hall => ⟨(), hall.2.1, hall.2.2⟩⟩
  · rw [if_pos (by simpa using hscan)]
    refine reads_throw _ fun c hc => hscan ?_
    exact (scan_twin htwin).mpr ((means_iff c).mp hc).1

theorem Means.unique {c c' : Chat} (h : Means ms c) (h' : Means ms c') : c = c' := by
  obtain ⟨_, _, model, xs, hmodel, _, hxs, _, ns, hns, _, ho⟩ := (means_iff c).mp h
  obtain ⟨_, _, model', xs', hmodel', _, hxs', _, ns', hns', _, ho'⟩ := (means_iff c').mp h'
  cases hmodel.symm.trans hmodel'
  cases hxs.symm.trans hxs'
  rw [forall₂_unique hns' hns] at ho'
  rw [ho.rest, ho'.rest, ho.stream.unique ho'.stream, ho.includeUsage.unique ho'.includeUsage]

theorem Quotable.no_nul {raw : Bytes} (h : Quotable raw) : ∀ c ∈ raw, c ≠ 0 := by
  induction h with
  | nil => exact fun c hc => absurd hc List.not_mem_nil
  | plain hc _ ih => exact List.forall_mem_cons.mpr ⟨hc.1, ih⟩
  | short he _ ih =>
      refine List.forall_mem_cons.mpr ⟨by decide, List.forall_mem_cons.mpr ⟨?_, ih⟩⟩
      rintro rfl
      exact absurd he (by decide)
  | unicode hx _ ih =>
      simp only [Bool.and_eq_true] at hx
      have hhex {c : UInt8} (hc : isHex c = true) : c ≠ 0 := by
        rintro rfl
        cases hc
      simp only [List.forall_mem_cons]
      exact ⟨by decide, by decide, hhex hx.1.1.1, hhex hx.1.1.2, hhex hx.1.2, hhex hx.2, ih⟩

theorem Spaced.no_nul {s s' : Bytes} (h : Spaced s s') : ∀ c ∈ s, c ≠ 0 := by
  induction h with
  | nil => exact fun c hc => absurd hc List.not_mem_nil
  | @space c s s' hc _ ih =>
      refine List.forall_mem_cons.mpr ⟨?_, ih⟩
      rintro rfl
      exact absurd hc (by decide)
  | @mark c s s' hc _ ih =>
      refine List.forall_mem_cons.mpr ⟨?_, ih⟩
      rintro rfl
      exact absurd hc (by decide)
  | @str raw s s' hraw _ ih =>
      refine List.forall_mem_cons.mpr ⟨by decide, List.forall_mem_append.mpr ⟨?_, ?_⟩⟩
      · exact Quotable.no_nul hraw
      · exact List.forall_mem_cons.mpr ⟨by decide, ih⟩
  | @prim raw s s' hraw _ _ ih =>
      refine List.forall_mem_append.mpr ⟨fun c hc => ?_, ih⟩
      rintro rfl
      exact absurd (hraw.2 0 hc).1 (by decide)

/-- `app_chat_parse` on a text of an object that has room for its tokens: if the arena gives every
block, it accepts the request for a chat exactly if the members mean that chat; if it does not,
the request is refused. -/
theorem chat_parse_exactly {src : Bytes} {ms : List (Bytes × Tree)} (h : ObjectText src ms)
    (hcap : (Tree.obj ms).count ≤ JSON_TOK_CAP) (docBytes left : Nat) :
    ((appChatParse docBytes src ⟨left, false⟩).2.refused = false ∧
      ∀ c, (appChatParse docBytes src ⟨left, false⟩).1 = .ok c ↔ Means ms c) ∨
    ((appChatParse docBytes src ⟨left, false⟩).2.refused = true ∧
      ∃ e, (appChatParse docBytes src ⟨left, false⟩).1 = .error e) := by
  obtain ⟨j, hj, htwin, hshows⟩ := parse_printed h hcap
  have hbody : cstr src = src := by
    rw [cstr, List.takeWhile_eq_self_iff]
    intro c hc
    simpa using Spaced.no_nul h.2 c hc
  have hreads : Reads (appChatParse docBytes src) (Means ms) := by
    refine reads_grant ?_
    rw [hbody, hj]
    exact reads_chat htwin hshows h.1
  have hrun := hreads ⟨left, false⟩ rfl
  generalize appChatParse docBytes src ⟨left, false⟩ = out at hrun
  obtain ⟨r, a⟩ := out
  dsimp only at hrun ⊢
  generalize hb : a.refused = b at hrun
  cases hrun with
  | @ok v hv =>
      refine .inl ⟨rfl, fun c => ⟨fun hc => Except.ok.inj hc ▸ hv, fun hc => ?_⟩⟩
      rw [hv.unique hc]
  | error hnone => exact .inl ⟨rfl, fun c => ⟨fun hc => (by cases hc), fun hc => absurd hc (hnone c)⟩⟩
  | refused => exact .inr ⟨rfl, _, rfl⟩

end

/-- A request with a content in two parts, tools that are switched off and a limit. -/
def partsRequest : List (Bytes × Tree) :=
  [(lit "model", .str (lit "m")), (lit "tools", .arr []),
    (lit "messages", .arr [.obj [(lit "role", .str (lit "user")),
      (lit "content", .arr [
        .obj [(lit "type", .str (lit "text")), (lit "text", .str (lit "a\\u00e9"))],
        .obj [(lit "text", .str (lit "b")), (lit "type", .str (lit "text"))]])]]),
    (lit "max_tokens", .prim (lit "12"))]

theorem partsRequest_valid : ValidMembers partsRequest := by
  have hplain {raw : Bytes} (h : ∀ c ∈ raw, c ≠ 0 ∧ c ≠ 34 ∧ c ≠ 92) : Quotable raw :=
    Proofs.quotable_plain h
  have htext : Quotable (lit "text") := hplain (by decide)
  have htype : Quotable (lit "type") := hplain (by decide)
  have hletter : Quotable (lit "a\\u00e9") := .plain (by decide) (.unicode rfl .nil)
  have hfirst : (Tree.obj [(lit "type", .str (lit "text")),
      (lit "text", .str (lit "a\\u00e9"))]).Valid :=
    ⟨htype, htext, htext, hletter, trivial⟩
  have hsecond : (Tree.obj [(lit "text", .str (lit "b")),
      (lit "type", .str (lit "text"))]).Valid :=
    ⟨htext, hplain (by decide), htype, htext, trivial⟩
  exact ⟨hplain (by decide), hplain (by decide), hplain (by decide), trivial, hplain (by decide),
    ⟨⟨hplain (by decide), hplain (by decide), hplain (by decide), ⟨hfirst, hsecond, trivial⟩,
      trivial⟩, trivial⟩, hplain (by decide), ⟨⟨49, rfl, by decide⟩, by decide⟩, trivial⟩

theorem chat_parse_exactly_parts : ∃ c, Means partsRequest c ∧
    c.messages = [⟨lit "user", lit "aéb"⟩] ∧ c.maxTokens = 12 := by
  have hfits : (Tree.obj partsRequest).count ≤ JSON_TOK_CAP := by decide
  have hread : ((appChatParse 81936 (Tree.obj partsRequest).print ⟨200000, false⟩).1.toOption.map
      fun c => (c.messages, c.maxTokens)) = some ([⟨lit "user", lit "aéb"⟩], 12) := by
    decide +kernel
  rcases chat_parse_exactly (ObjectText.print partsRequest_valid) hfits 81936 200000 with
    ⟨_, hexact⟩ | ⟨_, e, herror⟩
  · cases hok : (appChatParse 81936 (Tree.obj partsRequest).print ⟨200000, false⟩).1 with
    | error e =>
        rw [hok] at hread
        cases hread
    | ok c =>
        rw [hok] at hread
        have hpair := Option.some.inj hread
        exact ⟨c, (hexact c).mp hok, congrArg Prod.fst hpair, congrArg Prod.snd hpair⟩
  · rw [herror] at hread
    cases hread

end GeistServe.Compat
