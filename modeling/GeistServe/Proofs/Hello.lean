import GeistServe.Client.Hello
import GeistServe.Geistd.Plain
import GeistServe.Proofs.ChatWire
import GeistServe.Proofs.Growth
import GeistServe.Proofs.HelloGate
import GeistServe.Proofs.Lookup

/-!
# Tokens that come through

The daemon takes any token of at least 32 bytes, the client only some of them. It
cuts a token at 127 bytes, and it prints it into the header as it is. What the
daemon then reads is the string up to the first quote, with its escapes undone:
never longer than what the client printed, and shorter if there was a quote or a
backslash in it. Since the daemon compares the whole length, the token comes
through only when nothing was lost on the way.
-/

namespace GeistServe.Proofs

open GeistServe.Lib GeistServe.Geistd GeistServe.Json GeistServe.Client

variable {P : Platform}

/-- A frame that reads a header opens a new connection exactly when the bytes say
so. -/
theorem handle_hello {d : Daemon P} {f : Frame} {hdr : Bytes} (hreads : ReadsHeader f hdr)
    (hop : ∀ j, jsonParse hdr = some j → j.strdup (j.get 0 (lit "op")) = some (lit "hello"))
    (env : Env) {c : Conn} (hnew : c.authed = false) :
    (handle d env f c).2.1.authed = helloAccepts d.token hdr := by
  rw [ReadsHeader] at hreads
  rw [helloAccepts]
  cases hj : jsonParse hdr with
  | none =>
      rw [hj] at hreads
      rw [handle, hreads]
      exact (reply_written _ _).authed.trans hnew
  | some j =>
      rw [hj] at hreads
      obtain ⟨js, hhdr, hkeys⟩ := hreads
      have hhello := hop j hj
      rw [handle, hhdr]
      simp only
      rw [hkeys "op", hhello, hkeys "token"]
      simp only [if_true, decide_true, Bool.true_and]
      split
      · next hgood =>
          rw [hgood]
          exact (say_written _ _).authed
      · next hbad =>
          rw [Bool.eq_false_iff.mpr hbad]
          exact (reply_written _ _).authed

/-! ## What the daemon reads -/

/-- The header in front of the token. -/
def front : Bytes := lit "\x7b\"op\":\"hello\",\"token\":"

/-- The tokens of that part: the object, the key `op`, its value, the key `token`. -/
def frontToks : List Tok :=
  [⟨.object, 0, none, 2, none⟩, ⟨.string, 2, some 4, 1, some 0⟩,
    ⟨.string, 7, some 12, 0, some 1⟩, ⟨.string, 15, some 20, 0, some 0⟩]

theorem front_shape (rest : Bytes) : front ++ rest =
    123 :: ([] ++ (34 :: ([111, 112] ++ 34 :: 58 ::
      ((Tree.str [104, 101, 108, 108, 111]).print ++
        ([44] ++ (34 :: ([116, 111, 107, 101, 110] ++ 34 :: 58 :: rest))))))) := by
  have hbytes : front = [123, 34, 111, 112, 34, 58, 34, 104, 101, 108, 108, 111, 34, 44, 34, 116,
      111, 107, 101, 110, 34, 58] := by
    decide
  rw [hbytes]
  rfl

theorem loop_front (rest : Bytes) :
    loop JSON_TOK_CAP 0 0 {} (front ++ rest) =
      loop JSON_TOK_CAP 0 22 ⟨frontToks, some 3⟩ rest := by
  have hop : Quotable [111, 112] := quotable_plain (by decide)
  have htoken : Quotable [116, 111, 107, 101, 110] := quotable_plain (by decide)
  have hhello : (Tree.str [104, 101, 108, 108, 111]).Valid := quotable_plain (by decide)
  have hready : ({} : Parser).Ready := fun s hs => by cases hs
  rw [front_shape, loop_open (.inl ⟨rfl, rfl⟩) hready, fits_pos _ (by decide),
    loop_key (.inl ⟨rfl, rfl⟩) (by decide) hop, fits_pos _ (by decide),
    Tree.loop_print _ _ (Parser.keyed_ready _ _ _ _) _ hhello (fun h => by cases h),
    fits_pos _ (by decide),
    loop_key (.inr ⟨rfl, 1, _, rfl, rfl, .inr ⟨rfl, rfl⟩⟩) (by decide) htoken,
    fits_pos _ (by decide)]
  rfl

/-- The token's value is the string behind that part, whatever follows it. -/
theorem loop_value {rest : Bytes} {p : Parser}
    (h : loop JSON_TOK_CAP 0 0 {} (front ++ 34 :: rest) = .ok p) :
    ∃ n, parseString rest = .ok n ∧ Extends frontToks p.toks ∧
      ∃ t, p.toks[4]? = some t ∧ Later ⟨.string, 23, some (23 + n), 0, some 3⟩ t := by
  rw [loop_front, loop.eq_def] at h
  simp only at h
  rw [if_neg (by decide)] at h
  have hchar : jsmnChar JSON_TOK_CAP 22 34 rest ⟨frontToks, some 3⟩ =
      (parseString rest).bind fun n =>
        (addToken JSON_TOK_CAP .string 23 (23 + n) ⟨frontToks, some 3⟩).map (·, n + 1) := by
    show _ = Except.bind (parseString rest) _
    cases hn : parseString rest <;> (simp only [jsmnChar, hn]; rfl)
  rw [hchar] at h
  cases hn : parseString rest with
  | error e =>
      rw [hn] at h
      cases h
  | ok n =>
      rw [hn] at h
      simp only [Except.bind] at h
      have hadd : addToken JSON_TOK_CAP .string 23 (23 + n) ⟨frontToks, some 3⟩ =
          .ok ⟨addSize (frontToks ++ [⟨.string, 23, some (23 + n), 0, some 3⟩]) (some 3),
            some 3⟩ := rfl
      simp only [hadd] at h
      have hadded : Extends frontToks
          (addSize (frontToks ++ [⟨.string, 23, some (23 + n), 0, some 3⟩]) (some 3)) :=
        (Extends.append _ _).trans (.addSize _ _)
      have hext := loop_extends h
      exact ⟨n, rfl, hadded.trans hext, hext 4 ⟨.string, 23, some (23 + n), 0, some 3⟩ rfl⟩

/-- What the daemon finds in a header that starts like the client's. -/
theorem hello_fields {rest : Bytes} {j : Doc} (h : jsonParse (front ++ 34 :: rest) = some j) :
    ∃ raw back, Quotable raw ∧ rest = raw ++ 34 :: back ∧
      j.strdup (j.get 0 (lit "op")) = some (lit "hello") ∧
      j.strdup (j.get 0 (lit "token")) = some ((unescape raw).takeWhile (· ≠ 0)) := by
  have hbytes : front = [123, 34, 111, 112, 34, 58, 34, 104, 101, 108, 108, 111, 34, 44, 34, 116,
      111, 107, 101, 110, 34, 58] := by
    decide
  obtain ⟨hsrc, p, _, _, hloop, htok, _⟩ := jsonParse_ok h
  obtain ⟨n, hn, hext, t, ht, hlater⟩ := loop_value hloop
  obtain ⟨raw, back, hraw, hrest, hlen⟩ := parseString_sound hn
  obtain ⟨t₀, h₀, hl₀⟩ := hext 0 _ rfl
  obtain ⟨t₁, h₁, hl₁⟩ := hext 1 _ rfl
  obtain ⟨t₂, h₂, hl₂⟩ := hext 2 _ rfl
  obtain ⟨t₃, h₃, hl₃⟩ := hext 3 _ rfl
  -- the tokens of the front and the value, and what follows them
  obtain ⟨ts, hts⟩ : ∃ ts, p.toks = t₀ :: t₁ :: t₂ :: t₃ :: t :: ts := by
    generalize p.toks = us at h₀ h₁ h₂ h₃ ht
    rcases us with _ | ⟨u₀, _ | ⟨u₁, _ | ⟨u₂, _ | ⟨u₃, _ | ⟨u₄, us⟩⟩⟩⟩⟩
    · cases h₀
    · cases h₁
    · cases h₂
    · cases h₃
    · cases ht
    · injection h₀ with h₀
      injection h₁ with h₁
      injection h₂ with h₂
      injection h₃ with h₃
      injection ht with ht
      exact ⟨us, by rw [h₀, h₁, h₂, h₃, ht]⟩
  have hkeyop : lit "op" = [111, 112] := by decide
  have hhello : lit "hello" = [104, 101, 108, 108, 111] := by decide
  have hkeytoken : lit "token" = [116, 111, 107, 101, 110] := by decide
  obtain ⟨src, tok⟩ := j
  simp only at hsrc htok
  subst hsrc htok
  have htext₁ : (⟨front ++ 34 :: rest, p.toks⟩ : Doc).text t₁ = lit "op" := by
    rw [Doc.text, hl₁.start, hl₁.stop (Option.some_ne_none _), hbytes, hkeyop]
    rfl
  have htext₂ : (⟨front ++ 34 :: rest, p.toks⟩ : Doc).text t₂ = lit "hello" := by
    rw [Doc.text, hl₂.start, hl₂.stop (Option.some_ne_none _), hbytes, hhello]
    rfl
  have htext₃ : (⟨front ++ 34 :: rest, p.toks⟩ : Doc).text t₃ = lit "token" := by
    rw [Doc.text, hl₃.start, hl₃.stop (Option.some_ne_none _), hbytes, hkeytoken]
    rfl
  have htext : (⟨front ++ 34 :: rest, p.toks⟩ : Doc).text t = raw := by
    rw [Doc.text, hlater.start, hlater.stop (Option.some_ne_none _), hbytes, Option.getD_some,
      Nat.add_sub_cancel_left, ← hlen, hrest]
    exact List.take_left
  have hlength : 5 ≤ p.toks.length := by
    rw [hts]
    exact Nat.le_add_left 5 _
  have hroot : (p.toks[0]?).any (·.type == .object) = true := by
    rw [h₀, Option.any_some, hl₀.type]
    rfl
  -- `op` is the first key, `token` the second; between them stands the value of `op`
  have hget₁ : (⟨front ++ 34 :: rest, p.toks⟩ : Doc).get 0 (lit "op") = some 2 := by
    rw [Doc.get, if_pos hroot]
    show Doc.find _ 0 (lit "op") 1 (p.toks.drop 1) = _
    conv => lhs; arg 5; rw [hts, List.drop_one, List.tail_cons]
    rw [Doc.find]
    exact if_pos ⟨hl₁.parent, hl₁.type, htext₁, by show 2 < p.toks.length; omega⟩
  have hget₃ : (⟨front ++ 34 :: rest, p.toks⟩ : Doc).get 0 (lit "token") = some 4 := by
    rw [Doc.get, if_pos hroot]
    show Doc.find _ 0 (lit "token") 1 (p.toks.drop 1) = _
    conv => lhs; arg 5; rw [hts, List.drop_one, List.tail_cons]
    have hkeys : lit "op" ≠ lit "token" := by decide
    rw [Doc.find, if_neg fun hc => hkeys (htext₁.symm.trans hc.2.2.1), Doc.find,
      if_neg fun hc => ?_, Doc.find]
    · exact if_pos ⟨hl₃.parent, hl₃.type, htext₃, by show 4 < p.toks.length; omega⟩
    · rw [hl₂.parent] at hc
      cases hc.1
  refine ⟨raw, back, hraw, hrest, ?_, ?_⟩
  · rw [hget₁, Doc.strdup, Doc.str?, Option.bind_some]
    show Option.map _ (Option.filter _ p.toks[2]?) = _
    rw [h₂, Option.filter_some, hl₂.type, if_pos (beq_self_eq_true _), Option.map_some, htext₂, hhello]
    rfl
  · rw [hget₃, Doc.strdup, Doc.str?, Option.bind_some]
    show Option.map _ (Option.filter _ p.toks[4]?) = _
    rw [ht, Option.filter_some, hlater.type, if_pos (beq_self_eq_true _), Option.map_some, htext]

/-! ## What the client prints -/

theorem gdHello_eq {t : CStr} (hne : t ≠ []) :
    gdHello t = some (front ++ 34 :: (gdToken t ++ [34, 125])) := by
  have hopen : lit "\x7b\"op\":\"hello\",\"token\":\"" = front ++ [34] := by decide
  have hclose : lit "\"\x7d" = [34, 125] := by decide
  have hfront : front.length = 22 := by decide
  have hlen : (gdToken t).length ≤ 127 := by
    rw [gdToken, List.length_take]
    exact Nat.min_le_left _ _
  have htoken : gdToken t ≠ [] := by
    rw [gdToken, Ne, List.take_eq_nil_iff]
    rintro (h | h)
    · cases h
    · exact hne h
  rw [gdHello, if_neg htoken, hopen, hclose, List.take_of_length_le]
  · simp
  · simp only [List.length_append, List.length_cons, List.length_nil]
    omega

/-- The end of the value that the daemon reads is at the client's own quote, or
before it. -/
theorem value_le {s raw back : Bytes} (h : s ++ [34, 125] = raw ++ 34 :: back) :
    raw.length ≤ s.length := by
  have hsum := congrArg List.length h
  simp only [List.length_append, List.length_cons, List.length_nil] at hsum
  cases back with
  | nil =>
      have hlast := congrArg List.getLast? h
      rw [List.getLast?_append, List.getLast?_append] at hlast
      injection hlast with hlast
      exact absurd hlast (by decide)
  | cons c back =>
      rw [List.length_cons] at hsum
      omega

theorem Quotable.no_quote {raw : Bytes} (h : Quotable raw) (hesc : (92 : UInt8) ∉ raw) :
    (34 : UInt8) ∉ raw := by
  induction h with
  | nil => exact List.not_mem_nil
  | plain hc _ ih =>
      intro hq
      rcases List.mem_cons.mp hq with heq | hq
      · exact hc.2.1 heq.symm
      · exact ih (fun h => hesc (List.mem_cons_of_mem _ h)) hq
  | short _ _ _ | unicode _ _ _ => exact absurd List.mem_cons_self hesc

theorem unescape_id {s : Bytes} (h : (92 : UInt8) ∉ s) : unescape s = s := by
  induction s with
  | nil => rw [unescape]
  | cons c s ih =>
      have hc : c ≠ 92 := fun hc => h (hc ▸ List.mem_cons_self)
      rw [unescape_plain hc, ih fun hs => h (List.mem_cons_of_mem c hs)]

theorem header_parses {t : CStr} (ht : Quotable t) :
    ∃ j, jsonParse (front ++ 34 :: (t ++ [34, 125])) = some j := by
  have hbytes : front = [123, 34, 111, 112, 34, 58, 34, 104, 101, 108, 108, 111, 34, 44, 34, 116,
      111, 107, 101, 110, 34, 58] := by
    decide
  have hop : Quotable [111, 112] := quotable_plain (by decide)
  have htoken : Quotable [116, 111, 107, 101, 110] := quotable_plain (by decide)
  have hhello : Quotable [104, 101, 108, 108, 111] := quotable_plain (by decide)
  have hvalid : ValidMembers [([111, 112], .str [104, 101, 108, 108, 111]),
      ([116, 111, 107, 101, 110], .str t)] := ⟨hop, hhello, htoken, ht, trivial⟩
  have hprint : (Tree.obj [([111, 112], .str [104, 101, 108, 108, 111]),
      ([116, 111, 107, 101, 110], .str t)]).print = front ++ 34 :: (t ++ [34, 125]) := by
    rw [hbytes]
    simp [Tree.print, printMembers]
  have hparse := jsonParse_print hvalid
  rw [hprint] at hparse
  exact ⟨_, hparse.trans (if_pos (show 5 ≤ 4096 by decide))⟩

/-- The client's hello is accepted exactly when its token is not cut and needs no
escape. -/
theorem helloAccepts_iff {t : CStr} (hnul : (0 : UInt8) ∉ t) :
    helloAccepts (some t) (front ++ 34 :: (gdToken t ++ [34, 125])) = true ↔
      t.length ≤ 127 ∧ (34 : UInt8) ∉ t ∧ (92 : UInt8) ∉ t := by
  have hcut : (gdToken t).length ≤ t.length := by
    rw [gdToken, List.length_take]
    exact Nat.min_le_right _ _
  constructor
  · intro h
    rw [helloAccepts] at h
    split at h
    · cases h
    · next j hj =>
        obtain ⟨raw, back, hraw, hrest, hop, htok⟩ := hello_fields hj
        rw [htok, Bool.and_eq_true, helloGood_iff] at h
        have htok : (unescape raw).takeWhile (· ≠ 0) = t := Option.some.inj h.2
        have h₁ : t.length ≤ (unescape raw).length := by
          rw [← htok]
          exact (List.takeWhile_prefix _).length_le
        have h₂ := unescape_length_le raw
        have h₃ := value_le hrest
        -- nothing is lost: the token is not cut, and the string is the whole of it
        have hwhole : gdToken t = t := by
          rw [gdToken]
          refine List.take_of_length_le ?_
          by_contra hlong
          rw [gdToken, List.length_take] at h₃
          omega
        rw [hwhole] at hrest h₃
        have heq : raw = t := by
          refine (List.append_inj_left hrest ?_).symm
          omega
        subst heq
        have hesc : (92 : UInt8) ∉ raw := fun hesc => by
          have hlt := hraw.shorter hesc
          omega
        refine ⟨?_, Quotable.no_quote hraw hesc, hesc⟩
        rw [← hwhole, gdToken, List.length_take]
        exact Nat.min_le_left _ _
  · rintro ⟨hlen, hquote, hesc⟩
    have hwhole : gdToken t = t := List.take_of_length_le hlen
    have hquot : Quotable t := quotable_plain fun c hc =>
      ⟨fun h => hnul (h ▸ hc), fun h => hquote (h ▸ hc), fun h => hesc (h ▸ hc)⟩
    rw [hwhole]
    obtain ⟨j, hj⟩ := header_parses hquot
    obtain ⟨raw, back, hraw, hrest, hop, htok⟩ := hello_fields hj
    have hle := value_le hrest
    have heq : raw = t := by
      rcases Nat.lt_or_ge raw.length t.length with hlt | hge
      · have hmem := congrArg (·[raw.length]?) hrest
        simp only [List.getElem?_append_left hlt, List.getElem?_append_right (Nat.le_refl _),
          Nat.sub_self, List.getElem?_cons_zero] at hmem
        exact absurd (List.mem_of_getElem? hmem) hquote
      · exact (List.append_inj_left hrest (by omega)).symm
    subst heq
    have htake : (unescape raw).takeWhile (· ≠ 0) = raw := by
      rw [unescape_id hesc, List.takeWhile_eq_self_iff]
      exact fun c hc => decide_eq_true fun h => hnul (h ▸ hc)
    rw [helloAccepts, hj]
    simp only
    rw [hop, htok, htake, decide_eq_true rfl, Bool.true_and, helloGood_iff]

/-- The client's hello: what the daemon makes of it. -/
theorem gdHello_read {t : CStr} (hne : t ≠ []) (hnul : (0 : UInt8) ∉ t) :
    ∃ hdr, gdHello t = some hdr ∧
      (helloAccepts (some t) hdr = true ↔
        t.length ≤ 127 ∧ (34 : UInt8) ∉ t ∧ (92 : UInt8) ∉ t) ∧
      ∀ j, jsonParse hdr = some j → j.strdup (j.get 0 (lit "op")) = some (lit "hello") := by
  refine ⟨_, gdHello_eq hne, helloAccepts_iff hnul, ?_⟩
  intro j hj
  obtain ⟨_, _, _, _, hop, _⟩ := hello_fields hj
  exact hop

theorem startup_token {os : OS} {args : List CStr} {load : Option (Loaded P)} {d : Daemon P}
    {l : Option Listener} (h : startup os args load = some (d, l)) :
    d.token = os.geistdToken ∧ ∀ t, os.geistdToken = some t → TOKEN_MIN ≤ t.length := by
  unfold startup at h
  split at h
  · cases h
  · next a ha =>
      split at h
      · injection h with h
        injection h with h _
        subst h
        refine ⟨rfl, fun t ht => ?_⟩
        unfold accepted at ha
        split at ha
        · cases ha
        · split at ha
          · cases ha
          · split at ha
            · cases ha
            · split at ha
              · cases ha
              · split at ha
                · cases ha
                · next hlong =>
                    rw [ht, Option.any_some, decide_eq_true_eq] at hlong
                    exact Nat.not_lt.mp hlong
      · cases h

/-- A client with the token that the daemon was started with opens a new
connection exactly when the token has at most 127 bytes, no quote and no
backslash. -/
theorem started_token_accepted_iff {os : OS} {args : List CStr} {load : Option (Loaded P)}
    {d : Daemon P} {l : Option Listener} {t : CStr} (hstart : startup os args load = some (d, l))
    (ht : os.geistdToken = some t) (hnul : (0 : UInt8) ∉ t) :
    ∃ hdr, gdHello t = some hdr ∧
      (helloAccepts d.token hdr = true ↔
        t.length ≤ 127 ∧ (34 : UInt8) ∉ t ∧ (92 : UInt8) ∉ t) ∧
      ∀ f, ReadsHeader f hdr → ∀ env c, c.authed = false →
        ((handle d env f c).2.1.authed = true ↔
          t.length ≤ 127 ∧ (34 : UInt8) ∉ t ∧ (92 : UInt8) ∉ t) := by
  obtain ⟨htoken, hmin⟩ := startup_token hstart
  have hne : t ≠ [] := by
    rintro rfl
    exact absurd (hmin [] ht) (Nat.not_succ_le_zero _)
  obtain ⟨hdr, hhdr, hiff, hop⟩ := gdHello_read hne hnul
  rw [← ht, ← htoken] at hiff
  refine ⟨hdr, hhdr, hiff, ?_⟩
  intro f hf env c hc
  rw [handle_hello hf hop env hc]
  exact hiff

/-- A daemon on its own standard input, with a token. -/
def tokenOs (t : CStr) : OS := { geistdToken := some t }

def stdioArgs : List CStr := [lit "--stdio", lit "model"]

theorem tokenOs_starts {t : CStr} (h : 32 ≤ t.length) :
    ∃ d l, startup (tokenOs t) stdioArgs (some plainLoaded) = some (d, l) := by
  have hargs : parseArgs {} stdioArgs = some { model := some (lit "model"), stdio := true } := by
    rw [stdioArgs, parseArgs, if_pos rfl, parseArgs, if_neg (by decide), setModel,
      if_neg (by decide)]
  have haccepted : accepted (tokenOs t) stdioArgs =
      some { model := some (lit "model"), stdio := true } := by
    have hshort : ¬ (tokenOs t).geistdToken.any (fun t => decide (t.length < TOKEN_MIN)) := by
      show ¬ decide (t.length < TOKEN_MIN) = true
      rw [decide_eq_true_eq]
      exact Nat.not_lt.mpr h
    have hloop : ¬ (offLoopback none ∧ (tokenOs t).geistdToken.isNone) := fun h => by cases h.2
    rw [accepted, if_neg (by decide), hargs]
    simp only
    rw [if_neg (by decide), if_neg (by decide), if_neg hshort, if_neg hloop]
  rw [startup, haccepted]
  exact ⟨_, _, rfl⟩

theorem started_token_accepted_iff_letters :
    ∃ (d : Daemon plain) (hdr : Bytes), d.token = some (List.replicate 32 97) ∧
      gdHello (List.replicate 32 97) = some hdr ∧ helloAccepts d.token hdr = true := by
  obtain ⟨d, l, hstart⟩ := tokenOs_starts (t := List.replicate 32 97) (by decide)
  obtain ⟨hdr, hhdr, hiff, _⟩ := started_token_accepted_iff hstart rfl (by decide)
  exact ⟨d, hdr, (startup_token hstart).1, hhdr, hiff.mpr (by decide)⟩

/-- A token of 128 letters is cut, one of 31 letters and a backslash is printed
as it is. -/
theorem started_token_refused :
    (∃ (d : Daemon plain) (l : Option Listener) (hdr : Bytes),
      startup (tokenOs (List.replicate 128 97)) stdioArgs (some plainLoaded) = some (d, l) ∧
      gdHello (List.replicate 128 97) = some hdr ∧ helloAccepts d.token hdr = false) ∧
    ∃ (d : Daemon plain) (l : Option Listener) (hdr : Bytes),
      startup (tokenOs (List.replicate 31 97 ++ [92])) stdioArgs (some plainLoaded) =
        some (d, l) ∧
      gdHello (List.replicate 31 97 ++ [92]) = some hdr ∧ helloAccepts d.token hdr = false := by
  have refused : ∀ t : CStr, 32 ≤ t.length → (0 : UInt8) ∉ t →
      ¬ (t.length ≤ 127 ∧ (34 : UInt8) ∉ t ∧ (92 : UInt8) ∉ t) →
      ∃ (d : Daemon plain) (l : Option Listener) (hdr : Bytes),
        startup (tokenOs t) stdioArgs (some plainLoaded) = some (d, l) ∧
        gdHello t = some hdr ∧ helloAccepts d.token hdr = false := by
    intro t hlen hnul hno
    obtain ⟨d, l, hstart⟩ := tokenOs_starts hlen
    have hne : t ≠ [] := by
      rintro rfl
      exact absurd hlen (Nat.not_succ_le_zero _)
    obtain ⟨hdr, hhdr, hiff, _⟩ := gdHello_read hne hnul
    refine ⟨d, l, hdr, hstart, hhdr, ?_⟩
    rw [(startup_token hstart).1]
    exact Bool.eq_false_iff.mpr fun h => hno (hiff.mp h)
  constructor
  · refine refused _ ?_ ?_ fun h => ?_
    · simp
    · simp
    · simp at h
  · refine refused _ ?_ ?_ fun h => ?_
    · simp
    · simp
    · simp at h

end GeistServe.Proofs
