import Mathlib.Data.Nat.Digits.Defs
import GeistServe.App.Reading
import GeistServe.Proofs.ChatWire

/-!
# Events and responses, written and read

What a text that was put together in a buffer is to the client that reads it. A
buffer that has not failed holds the pieces that were put in (`Writes`). An event is
the text of a tree on a line of its own: `Body` says what the client makes of the
lines that a stream consists of, and is put together from one event at a time.
Behind the head that announces it such a body is a response, and so is the text of a
tree behind the header that tells its length.
-/

namespace GeistServe.Proofs

open GeistServe.Lib GeistServe.Geistd GeistServe.App GeistServe.Json

/-! ## Texts without control characters -/

def Clean (s : Bytes) : Prop := ∀ c ∈ s, 32 ≤ c

theorem Clean.append {s t : Bytes} (hs : Clean s) (ht : Clean t) : Clean (s ++ t) := by
  intro c hc
  rcases List.mem_append.mp hc with h | h
  · exact hs c h
  · exact ht c h

theorem Clean.one_line {s : Bytes} (h : Clean s) : newline ∉ s := by
  intro hmem
  exact absurd (h newline hmem) (by decide)

theorem Clean.take {s : Bytes} (h : Clean s) (n : Nat) : Clean (s.take n) :=
  fun c hc => h c (List.mem_of_mem_take hc)

theorem clean_hexDigit : ∀ n < 16, 32 ≤ hexDigit n := by decide

theorem clean_gdEscape (c : UInt8) : Clean (gdEscape c) := by
  have hlt : c.toNat < 256 := c.toNat_lt
  unfold gdEscape
  split
  · next h =>
      intro d hd
      rcases List.mem_cons.mp hd with rfl | hd
      · decide
      · rcases h with rfl | rfl
        · rw [List.mem_singleton.mp hd]
          decide
        · rw [List.mem_singleton.mp hd]
          decide
  · split
    · next h =>
        have hc : c.toNat < 32 := h
        have hdigits (n : Nat) (hn : n < 16) : Clean [hexDigit n] := by
          intro d hd
          rw [List.mem_singleton.mp hd]
          exact clean_hexDigit n hn
        have hopen : Clean [92, 117, 48, 48] := by
          unfold Clean
          decide
        exact (hopen.append (hdigits (c.toNat / 16) (by omega))).append
          (hdigits (c.toNat % 16) (by omega))
    · next h =>
        intro d hd
        rw [List.mem_singleton.mp hd]
        exact UInt8.not_lt.mp h

theorem clean_quoted (s : Bytes) : Clean (s.flatMap gdEscape) := by
  intro c hc
  obtain ⟨d, _, hd⟩ := List.mem_flatMap.mp hc
  exact clean_gdEscape d c hd

theorem gdEscape_length (c : UInt8) : (gdEscape c).length ≤ 6 := by
  unfold gdEscape
  split
  · exact Nat.le_of_ble_eq_true rfl
  · split
    · exact Nat.le_of_ble_eq_true rfl
    · exact Nat.le_of_ble_eq_true rfl

theorem quoted_length (s : Bytes) : (s.flatMap gdEscape).length ≤ 6 * s.length := by
  induction s with
  | nil => exact Nat.le_refl _
  | cons c s ih =>
      have hc := gdEscape_length c
      rw [List.flatMap_cons, List.length_append, List.length_cons]
      omega

/-! ## Numbers -/

theorem decimal_digit (n : Nat) : ∀ b ∈ decimal n, 48 ≤ b ∧ b ≤ 57 := decimal_digits _

theorem clean_decimal (n : Nat) : Clean (decimal n) :=
  fun c hc => UInt8.le_trans (by decide) (decimal_digit n c hc).1

theorem digits_length {cs : List Char} (h : ∀ c ∈ cs, c.isDigit = true) :
    (cs.flatMap String.utf8EncodeChar).length = cs.length := by
  induction cs with
  | nil => rfl
  | cons c cs ih =>
      obtain ⟨b, hb, _⟩ := utf8EncodeChar_digit (h c List.mem_cons_self)
      rw [List.flatMap_cons, hb, List.length_append, ih fun d hd => h d (List.mem_cons_of_mem _ hd),
        List.length_singleton, List.length_cons, Nat.add_comm]

theorem decimal_bounds (n : Nat) : 0 < (decimal n).length ∧ (decimal n).length ≤ 20 := by
  have hbytes : (decimal n).length = (Nat.toDigits 10 (n % 2 ^ 64)).length := by
    rw [decimal, lit, Nat.toString_eq_repr, Nat.toList_repr]
    exact digits_length fun c hc => Nat.isDigit_of_mem_toDigits (by decide) (by decide) hc
  have hpos : 0 < (Nat.toDigits 10 (n % 2 ^ 64)).length := Nat.length_toDigits_pos
  have hle : (Nat.toDigits 10 (n % 2 ^ 64)).length ≤ 20 :=
    Nat.toDigits_length 10 _ 20 (by decide) ((Nat.mod_lt n (by decide)).trans (by decide))
  omega

theorem isPrim_decimal (n : Nat) : IsPrim (decimal n) := by
  have hdigits := decimal_digit n
  have hpos := (decimal_bounds n).1
  constructor
  · cases hd : decimal n with
    | nil =>
        rw [hd] at hpos
        exact absurd hpos (Nat.lt_irrefl 0)
    | cons c rest =>
        refine ⟨c, rfl, .inr (.inl (hdigits c ?_))⟩
        rw [hd]
        exact List.mem_cons_self
  · intro c hc
    obtain ⟨hlow, hhigh⟩ := hdigits c hc
    have h1 : (48 : Nat) ≤ c.toNat := hlow
    have h2 : c.toNat ≤ 57 := hhigh
    refine ⟨?_, ?_, ?_, ?_, ?_⟩
    · show (32 : Nat) < c.toNat
      omega
    · show c.toNat < 127
      omega
    all_goals
      rintro rfl
      revert h1 h2
      decide

/-! ## Buffers -/

/-- What has been written from one state of a buffer to another: the text, if nothing
has failed; and nothing fails that fits. -/
structure Writes (b b' : Buffer) (text : Bytes) : Prop where
  cap : b'.cap = b.cap
  data : b'.failed = false → b.failed = false ∧ b'.data = b.data ++ text
  fits : b.failed = false → b.data.length + text.length < b.cap → b'.failed = false

theorem Writes.refl (b : Buffer) : Writes b b [] :=
  ⟨rfl, fun h => ⟨h, (List.append_nil _).symm⟩, fun h _ => h⟩

theorem Writes.trans {b c d : Buffer} {s t : Bytes} (h : Writes b c s) (h' : Writes c d t) :
    Writes b d (s ++ t) where
  cap := h'.cap.trans h.cap
  data := by
    intro hd
    obtain ⟨hc, hdata⟩ := h'.data hd
    obtain ⟨hb, hdata'⟩ := h.data hc
    exact ⟨hb, by rw [hdata, hdata', List.append_assoc]⟩
  fits := by
    intro hb hlen
    rw [List.length_append] at hlen
    have hc := h.fits hb (by omega)
    refine h'.fits hc ?_
    rw [(h.data hc).2, h.cap, List.length_append]
    omega

theorem writes_put (b : Buffer) (s : Bytes) : Writes b (b.put s) s := by
  unfold Buffer.put
  split
  · next h =>
      refine ⟨rfl, fun hf => (by cases hf), fun hb hlen => ?_⟩
      rcases h with h | h
      · rw [hb] at h
        cases h
      · omega
  · next h =>
      rw [not_or, Bool.not_eq_true] at h
      exact ⟨rfl, fun _ => ⟨h.1, rfl⟩, fun _ _ => h.1⟩

theorem writes_puts (b : Buffer) (xs : List Bytes) : Writes b (b.puts xs) xs.flatten := by
  induction xs generalizing b with
  | nil => exact .refl b
  | cons x xs ih => exact (writes_put b x).trans (ih (b.put x))

theorem writes_quote (b : Buffer) (s : Bytes) :
    Writes b (b.quote s) (34 :: (s.flatMap gdEscape ++ [34])) := by
  have h := ((writes_put b [34]).trans (writes_puts _ (s.map gdEscape))).trans (writes_put _ [34])
  rw [← List.flatMap_def] at h
  exact h

theorem Writes.fresh {cap : Nat} {b : Buffer} {text : Bytes} (h : Writes { cap := cap } b text) :
    (b.failed = false → b.data = text) ∧ (text.length < cap → b.failed = false) :=
  ⟨fun hb => (h.data hb).2, fun hlen => h.fits rfl (by
    rw [List.length_nil, Nat.zero_add]
    exact hlen)⟩

/-! ## Lines -/

theorem readHead_append {ls : List Bytes} {line a : Bytes} {r : List Bytes × Bytes}
    (h : readHead ls line a = some r) (b : Bytes) :
    readHead ls line (a ++ b) = some (r.1, r.2 ++ b) := by
  induction a generalizing ls line with
  | nil => cases h
  | cons c a ih =>
      rw [List.cons_append, readHead]
      rw [readHead] at h
      split
      · next hc =>
          rw [if_pos hc] at h
          split
          · next hline =>
              rw [if_pos hline] at h
              cases h
              rfl
          · next hline =>
              rw [if_neg hline] at h
              exact ih h
      · next hc =>
          rw [if_neg hc] at h
          exact ih h

/-- The lines that were read before stay in front. -/
theorem readHead_lines (ls : List Bytes) (line a : Bytes) :
    readHead ls line a = (readHead [] line a).map fun r => (ls ++ r.1, r.2) := by
  induction a generalizing ls line with
  | nil => rfl
  | cons c a ih =>
      rw [readHead, readHead]
      split
      · split
        · rw [Option.map_some, List.append_nil]
        · rw [ih, ih ([] ++ [line]), Option.map_map]
          simp only [Function.comp_def, List.nil_append, List.append_assoc]
      · exact ih ls (line ++ [c])

/-- One line of a head. -/
theorem readHead_line {ls : List Bytes} {line l rest : Bytes} (hl : newline ∉ l)
    (hne : line ++ l ≠ [13]) :
    readHead ls line (l ++ newline :: rest) = readHead (ls ++ [line ++ l]) [] rest := by
  induction l generalizing line with
  | nil =>
      rw [List.append_nil] at hne ⊢
      rw [List.nil_append, readHead, if_pos rfl, if_neg hne]
  | cons c l ih =>
      rw [List.mem_cons, not_or] at hl
      rw [List.cons_append, readHead, if_neg (Ne.symm hl.1), ih hl.2, List.append_assoc]
      · rfl
      · rwa [List.append_assoc]

theorem bodyLines_line {line l : Bytes} (hl : newline ∉ l) (rest : Bytes) :
    bodyLines line (l ++ newline :: rest) = (bodyLines [] rest).map ((line ++ l) :: ·) := by
  induction l generalizing line with
  | nil => rw [List.nil_append, bodyLines, if_pos rfl, List.append_nil]
  | cons c l ih =>
      rw [List.mem_cons, not_or] at hl
      rw [List.cons_append, bodyLines, if_neg (Ne.symm hl.1), ih hl.2, List.append_assoc]
      rfl

theorem bodyLines_lines {ls : List Bytes} (h : ∀ l ∈ ls, newline ∉ l) :
    bodyLines [] (ls.flatMap (· ++ [newline])) = some ls := by
  induction ls with
  | nil => rfl
  | cons l ls ih =>
      rw [List.flatMap_cons, List.append_assoc, List.singleton_append,
        bodyLines_line (h l List.mem_cons_self), ih fun l hl => h l (List.mem_cons_of_mem _ hl)]
      rfl

theorem View.append_assoc (u v w : View) : (u.append v).append w = u.append (v.append w) := by
  simp only [View.append, List.append_assoc, Nat.add_assoc]

theorem View.nil_append (v : View) : View.append {} v = v := by
  simp only [View.append, List.nil_append, Nat.zero_add]

theorem View.append_nil (v : View) : v.append {} = v := by
  simp only [View.append, List.append_nil, Nat.add_zero]

theorem readEvents_append {event : Bytes → Option View} {ls ls' : List Bytes} {v w : View}
    (h : readEvents event ls = some v) (h' : readEvents event ls' = some w) :
    readEvents event (ls ++ ls') = some (v.append w) := by
  induction ls generalizing v with
  | nil =>
      cases h
      rw [List.nil_append, h', View.nil_append]
  | cons l ls ih =>
      rw [readEvents] at h
      obtain ⟨u, hu, h⟩ := Option.bind_eq_some_iff.mp h
      obtain ⟨t, ht, rfl⟩ := Option.map_eq_some_iff.mp h
      rw [List.cons_append, readEvents, hu, Option.bind_some, ih ht, Option.map_some,
        View.append_assoc]

/-- What a client makes of the lines of a body. -/
def Body (event : Bytes → Option View) (body : Bytes) (v : View) : Prop :=
  ∃ ls : List Bytes, (∀ l ∈ ls, newline ∉ l) ∧ body = ls.flatMap (· ++ [newline]) ∧
    readEvents event ls = some v

theorem Body.nil (event : Bytes → Option View) : Body event [] {} :=
  ⟨[], fun _ h => absurd h List.not_mem_nil, rfl, rfl⟩

theorem Body.append {event : Bytes → Option View} {a b : Bytes} {v w : View}
    (h : Body event a v) (h' : Body event b w) : Body event (a ++ b) (v.append w) := by
  obtain ⟨ls, hls, rfl, hv⟩ := h
  obtain ⟨ls', hls', rfl, hw⟩ := h'
  refine ⟨ls ++ ls', fun l hl => ?_, List.flatMap_append.symm, readEvents_append hv hw⟩
  rcases List.mem_append.mp hl with h | h
  · exact hls l h
  · exact hls' l h

theorem Body.line {event : Bytes → Option View} {l : Bytes} {v : View} (hl : Clean l)
    (h : event l = some v) : Body event (l ++ [newline]) v := by
  refine ⟨[l], fun l' hl' => ?_, ?_, ?_⟩
  · rw [List.mem_singleton.mp hl']
    exact hl.one_line
  · rw [List.flatMap_cons, List.flatMap_nil, List.append_nil]
  · rw [readEvents, h, Option.bind_some, readEvents, Option.map_some, View.append_nil]

theorem Body.read {event : Bytes → Option View} {body : Bytes} {v : View} (h : Body event body v) :
    (bodyLines [] body).bind (readEvents event) = some v := by
  obtain ⟨ls, hls, rfl, hv⟩ := h
  rw [bodyLines_lines hls, Option.bind_some, hv]

/-! ## Trees on a line -/

/-- A tree that the tokens of a text have room for is what is read. -/
theorem jsonParse_node {ms : List (Bytes × Tree)} (hms : ValidMembers ms)
    (hcap : (Tree.obj ms).count ≤ JSON_TOK_CAP) :
    ∃ j, jsonParse (Tree.obj ms).print = some j ∧ Node j 0 (.obj ms) := by
  have hparse := jsonParse_print hms
  rw [if_pos hcap] at hparse
  exact ⟨_, hparse, Node.root hms hparse⟩

theorem found_tokTrue {j : Doc} {raw : Option Bytes} {r : Option Nat}
    (h : Found j (raw.map Tree.prim) r) : tokTrue j r = decide (raw = some (lit "true")) := by
  rcases h with ⟨hnone, rfl⟩ | ⟨w, k, hsome, rfl, hnode⟩
  · rw [Option.map_eq_none_iff.mp hnone]
    rfl
  · obtain ⟨raw, rfl, rfl⟩ := Option.map_eq_some_iff.mp hsome
    obtain ⟨t, ht, htext⟩ := hnode.prim
    rw [tokTrue, Option.bind_some, ht, Option.any_some, htext]
    simp only [Option.some.injEq]

theorem found_isSome {j : Doc} {v : Option Tree} {r : Option Nat} (h : Found j v r) :
    r.isSome = v.isSome := by
  rcases h with ⟨rfl, rfl⟩ | ⟨w, k, rfl, rfl, _⟩
  · rfl
  · rfl

theorem appEvent_print {ms : List (Bytes × Tree)} (hms : ValidMembers ms)
    (hcap : (Tree.obj ms).count ≤ JSON_TOK_CAP) {done : Option Bytes}
    (hdone : lookup (lit "done") ms = done.map Tree.prim) :
    appEvent (Tree.obj ms).print =
      some ⟨((lookup (lit "response") ms).bind Tree.str?).getD [],
        if done = some (lit "true") ∨ (lookup (lit "error") ms).isSome then 1 else 0⟩ := by
  obtain ⟨j, hparse, hroot⟩ := jsonParse_node hms hcap
  have hend := hroot.get (lit "done")
  rw [hdone] at hend
  rw [appEvent, hparse, Option.map_some, found_strdup (hroot.get (lit "response")),
    found_tokTrue hend, found_isSome (hroot.get (lit "error"))]
  simp only [decide_eq_true_eq]

/-- The text of one choice. -/
def Tree.choice (part : Bytes) (x : Tree) : Bytes :=
  ((x.get part).bind fun d => (d.get (lit "content")).bind Tree.str?).getD []

theorem node_choice {j : Doc} {k : Nat} {x : Tree} (h : Node j k x) (part : Bytes) :
    ((j.get k part).bind fun d => j.strdup (j.get d (lit "content"))).getD [] = Tree.choice part x := by
  rw [Tree.choice]
  rcases h.found part with ⟨hv, hr⟩ | ⟨w, d, hv, hr, hnode⟩
  · rw [hv, hr]
    rfl
  · rw [hv, hr, Option.bind_some, Option.bind_some, found_strdup (hnode.found (lit "content"))]

/-- The text in the choices, if the message has any. -/
theorem choiceText_print {j : Doc} {ms : List (Bytes × Tree)} (h : Node j 0 (.obj ms))
    {xs : Option (List Tree)} (hxs : lookup (lit "choices") ms = xs.map Tree.arr) (part : Bytes) :
    choiceText j part = (xs.getD []).flatMap (Tree.choice part) := by
  have hfound := h.get (lit "choices")
  rw [hxs] at hfound
  rw [choiceText]
  rcases hfound with ⟨hnone, hr⟩ | ⟨w, k, hsome, hr, hnode⟩
  · rw [hr, Option.map_eq_none_iff.mp hnone]
    rfl
  · obtain ⟨xs, rfl, rfl⟩ := Option.map_eq_some_iff.mp hsome
    rw [hr]
    simp only [Option.getD_some]
    have hitems := hnode.items
    clear hnode hsome hxs
    generalize j.items k = is at hitems
    induction hitems with
    | nil => rfl
    | cons hnode _ ih => rw [List.flatMap_cons, List.flatMap_cons, node_choice hnode part, ih]

theorem streamEvent_print {ms : List (Bytes × Tree)} (hms : ValidMembers ms)
    (hcap : (Tree.obj ms).count ≤ JSON_TOK_CAP) {xs : Option (List Tree)}
    (hxs : lookup (lit "choices") ms = xs.map Tree.arr) :
    streamEvent (lit "data: " ++ (Tree.obj ms).print) =
      some ⟨(xs.getD []).flatMap (Tree.choice (lit "delta")),
        if (lookup (lit "error") ms).isSome then 1 else 0⟩ := by
  obtain ⟨j, hparse, hroot⟩ := jsonParse_node hms hcap
  have hdata : lit "data: " = [100, 97, 116, 97, 58, 32] := by decide
  have hdone : lit "data: [DONE]" = lit "data: " ++ [91, 68, 79, 78, 69, 93] := by decide
  have hne : lit "data: " ++ (Tree.obj ms).print ≠ lit "data: [DONE]" := by
    rw [hdone, Ne, List.append_cancel_left_eq, Tree.print]
    intro h
    injection h with h
    exact absurd h (by decide)
  have hprefix : (lit "data: ").isPrefixOf (lit "data: " ++ (Tree.obj ms).print) = true :=
    List.isPrefixOf_iff_prefix.mpr (List.prefix_append _ _)
  have hdrop : (lit "data: " ++ (Tree.obj ms).print).drop 6 = (Tree.obj ms).print := by
    rw [hdata]
    rfl
  rw [streamEvent, if_neg, if_neg hne, if_pos hprefix, hdrop, hparse, Option.map_some,
    choiceText_print hroot hxs, found_isSome (hroot.get (lit "error"))]
  rw [hdata]
  rintro (h | h)
  · cases h
  · injection h with h
    exact absurd h (by decide)

theorem wholeEvent_print {ms : List (Bytes × Tree)} (hms : ValidMembers ms)
    (hcap : (Tree.obj ms).count ≤ JSON_TOK_CAP) {xs : Option (List Tree)}
    (hxs : lookup (lit "choices") ms = xs.map Tree.arr) :
    wholeEvent (Tree.obj ms).print =
      some ⟨(xs.getD []).flatMap (Tree.choice (lit "message")), 1⟩ := by
  obtain ⟨j, hparse, hroot⟩ := jsonParse_node hms hcap
  rw [wholeEvent, hparse, Option.map_some, choiceText_print hroot hxs]

/-! ## Responses -/

theorem view_app {body : Bytes} {v : View} (h : Body appEvent body v) :
    view (ndjsonHead ++ body) = some v := by
  have hhead : (readHead [] [] ndjsonHead).any (fun r =>
      decide (lit "Content-Type: application/x-ndjson\r" ∈ r.1 ∧ r.2 = [])) = true := by
    decide +kernel
  obtain ⟨⟨ls, r⟩, hread, hr⟩ := (Option.any_eq_true _ _).mp hhead
  obtain ⟨hmem, hrest⟩ := of_decide_eq_true hr
  have hrest : r = [] := hrest
  rw [view, readHead_append hread, Option.bind_some, hrest]
  simp only [if_pos hmem, List.nil_append]
  exact h.read

theorem view_stream {body : Bytes} {v : View} (h : Body streamEvent body v) :
    view (sseHead ++ body) = some v := by
  have hhead : (readHead [] [] sseHead).any (fun r =>
      decide (lit "Content-Type: application/x-ndjson\r" ∉ r.1 ∧
        lit "Content-Type: text/event-stream\r" ∈ r.1 ∧ r.2 = [])) = true := by
    decide +kernel
  obtain ⟨⟨ls, r⟩, hread, hr⟩ := (Option.any_eq_true _ _).mp hhead
  obtain ⟨hno, hmem, hrest⟩ := of_decide_eq_true hr
  have hrest : r = [] := hrest
  rw [view, readHead_append hread, Option.bind_some, hrest]
  simp only [if_neg hno, if_pos hmem, List.nil_append]
  exact h.read

/-- The lines of a response's header that are always the same. -/
def responseTail : Bytes :=
  lit ("Connection: close\r\nCache-Control: no-store\r\n" ++
    "X-Content-Type-Options: nosniff\r\nReferrer-Policy: no-referrer\r\n" ++
    "Content-Security-Policy: default-src 'none'; script-src 'self'; style-src 'self'; " ++
    "connect-src 'self'; img-src 'self' data:; base-uri 'none'; frame-ancestors 'none'; " ++
    "form-action 'self'\r\n\r\n")

theorem responseHead_lines (status n : Nat) :
    responseHead status (lit "application/json") n =
      (lit "HTTP/1.1 " ++ (decimal status ++ lit " Response\r")) ++ newline ::
        (lit "Content-Type: application/json\r" ++ newline ::
          ((lit "Content-Length: " ++ (decimal n ++ [13])) ++ newline :: responseTail)) := by
  have htype : lit " Response\r\nContent-Type: " ++ lit "application/json" =
      lit " Response\r" ++ newline :: lit "Content-Type: application/json" := by decide
  have hlength : lit "Content-Type: application/json" ++ lit "\r\nContent-Length: " =
      lit "Content-Type: application/json\r" ++ newline :: lit "Content-Length: " := by decide
  have htail : lit ("\r\nConnection: close\r\nCache-Control: no-store\r\n" ++
      "X-Content-Type-Options: nosniff\r\nReferrer-Policy: no-referrer\r\n" ++
      "Content-Security-Policy: default-src 'none'; script-src 'self'; style-src 'self'; " ++
      "connect-src 'self'; img-src 'self' data:; base-uri 'none'; frame-ancestors 'none'; " ++
      "form-action 'self'\r\n\r\n") = [13] ++ newline :: responseTail := by decide +kernel
  rw [responseHead, htail, List.append_assoc (lit "HTTP/1.1 " ++ decimal status), htype]
  simp only [List.append_assoc, List.cons_append]
  rw [← List.append_assoc (lit "Content-Type: application/json"), hlength]
  simp only [List.append_assoc, List.cons_append]

theorem responseHead_length (status n : Nat) :
    (responseHead status (lit "application/json") n).length < 1024 := by
  have hstatus := (decimal_bounds status).2
  have hn := (decimal_bounds n).2
  have htail : responseTail.length < 500 := by decide +kernel
  have h1 : (lit "HTTP/1.1 ").length = 9 := by decide
  have h2 : (lit " Response\r").length = 10 := by decide
  have h3 : (lit "Content-Type: application/json\r").length = 31 := by decide
  have h4 : (lit "Content-Length: ").length = 16 := by decide
  rw [responseHead_lines]
  simp only [List.length_append, List.length_cons, List.length_nil, h1, h2, h3, h4]
  omega

/-- A body behind its header. -/
theorem view_response (status : Nat) (body : Bytes) :
    view (responseHead status (lit "application/json") body.length ++ body) = wholeEvent body := by
  have hdigits (n : Nat) : newline ∉ decimal n := (clean_decimal n).one_line
  have hstatus : newline ∉ lit "HTTP/1.1 " ++ (decimal status ++ lit " Response\r") := by
    simp only [List.mem_append, not_or]
    exact ⟨by decide, hdigits status, by decide⟩
  have hlength : newline ∉ lit "Content-Length: " ++ (decimal body.length ++ [13]) := by
    simp only [List.mem_append, not_or]
    exact ⟨by decide, hdigits _, by decide⟩
  have htail : (readHead [] [] responseTail).any (fun r =>
      decide (lit "Content-Type: application/x-ndjson\r" ∉ r.1 ∧
        lit "Content-Type: text/event-stream\r" ∉ r.1 ∧ r.2 = [])) = true := by
    decide +kernel
  obtain ⟨⟨ls, r⟩, hread, hr⟩ := (Option.any_eq_true _ _).mp htail
  obtain ⟨hno, hno', hrest⟩ := of_decide_eq_true hr
  have hrest : r = [] := hrest
  have hstart (l : Bytes) : lit "HTTP/1.1 " ++ l ≠ [13] := by
    intro h
    injection h with h
    exact absurd h (by decide)
  have hstart' (l : Bytes) : lit "Content-Length: " ++ l ≠ [13] := by
    intro h
    injection h with h
    exact absurd h (by decide)
  have hnil (l : Bytes) (h : l ≠ [13]) : [] ++ l ≠ [13] := h
  have hlines (l₁ l₂ l₃ : Bytes) (h₁ : newline ∉ l₁ ∧ l₁ ≠ [13]) (h₂ : newline ∉ l₂ ∧ l₂ ≠ [13])
      (h₃ : newline ∉ l₃ ∧ l₃ ≠ [13]) :
      readHead [] [] (l₁ ++ newline :: (l₂ ++ newline :: (l₃ ++ newline :: responseTail)) ++ body) =
        some ([l₁, l₂, l₃] ++ ls, body) := by
    simp only [List.append_assoc, List.cons_append]
    rw [readHead_line h₁.1 (hnil _ h₁.2), readHead_line h₂.1 (hnil _ h₂.2),
      readHead_line h₃.1 (hnil _ h₃.2), readHead_lines, readHead_append hread, hrest]
    rfl
  have hends : lit "Content-Length: " ++ decimal body.length ++ lit "\r" =
      lit "Content-Length: " ++ (decimal body.length ++ [13]) := List.append_assoc _ _ _
  rw [view, responseHead_lines, hlines _ _ _ ⟨hstatus, hstart _⟩ (by decide) ⟨hlength, hstart' _⟩,
    Option.bind_some]
  -- Neither of the two stream types is one of the lines.
  have hother (a : Bytes) (ha : ¬ lit "HTTP/1.1 " <+: a ∧ ¬ lit "Content-Length: " <+: a ∧
      a ≠ lit "Content-Type: application/json\r") (hls : a ∉ ls) :
      a ∉ [lit "HTTP/1.1 " ++ (decimal status ++ lit " Response\r"),
        lit "Content-Type: application/json\r",
        lit "Content-Length: " ++ (decimal body.length ++ [13])] ++ ls := by
    simp only [List.cons_append, List.nil_append, List.mem_cons, not_or]
    exact ⟨fun h => ha.1 ⟨_, h.symm⟩, ha.2.2, fun h => ha.2.1 ⟨_, h.symm⟩, hls⟩
  simp only [hends]
  rw [if_neg (hother _ (by decide) hno), if_neg (hother _ (by decide) hno'), if_pos (by simp)]

end GeistServe.Proofs
