import GeistServe.Proofs.Arrival

/-!
# The HTTP boundary

What `read_request` accepts is exactly the text of a request, over TCP one whose headers name
this computer and no other site (`tcp_accepts_exactly`). An endpoint runs for exactly those
accepted requests that carry the token (`handle_runs_exactly`).

Each header field depends on the lines of its own name only, because none of the names starts
another one (`headers_ok`).
-/

namespace GeistServe.Http

open GeistServe.Lib GeistServe.Geistd

/-! ## The header fields -/

/-- The values of the headers of a name, in their order. -/
def values (name : String) (lines : List CStr) : List CStr :=
  (lines.filter (named name)).map fun l => trimmed (l.drop (lit name).length)

/-- Of the values all but the last are empty, and the last is `v`. -/
structure Sole (cap : Nat) (vs : List CStr) (v : CStr) : Prop where
  earlier : ∀ w ∈ vs.dropLast, w = []
  last : v = vs.getLastD []
  fits : v.length < cap

/-- The one header of the length, and what it says. -/
inductive Declared (lines : List CStr) : Nat → Prop where
  | none (h : lines.filter (named "Content-Length:") = []) : Declared lines 0
  | one {l p : CStr} (h : lines.filter (named "Content-Length:") = [l])
      (hp : (l.drop 15).dropWhile (· == 32) = p) (hne : p ≠ [])
      (hdigits : ∀ c ∈ p, isDigit c = true) (hle : ofDigits p ≤ REQUEST_CAP) :
      Declared lines (ofDigits p)

/-- A name of this computer, and a port. -/
def Loopback (host : CStr) : Prop :=
  ∃ port, (host = lit "127.0.0.1:" ++ port ∨ host = lit "localhost:" ++ port) ∧ port ≠ [] ∧
    (∀ c ∈ port, isDigit c = true) ∧ 0 < ofDigits port ∧ ofDigits port ≤ 65535

/-- One value of a field that has `out`. -/
def oneValue (cap : Nat) (out w : CStr) : Option CStr :=
  if cap ≤ w.length ∨ out ≠ [] then none else some w

theorem headerValue_eq (out : CStr) (cap : Nat) (s : CStr) :
    headerValue out cap s = oneValue cap out (trimmed s) := rfl

theorem oneValue_full {cap : Nat} {out w : CStr} (h : out ≠ []) : oneValue cap out w = none :=
  if_pos (.inr h)

theorem values_sole {cap : Nat} (hcap : 0 < cap) (vs : List CStr) (v : CStr) :
    vs.foldlM (oneValue cap) [] = some v ↔ Sole cap vs v := by
  induction vs with
  | nil =>
      refine ⟨fun h => ?_, fun h => ?_⟩
      · cases h
        exact ⟨fun w hw => absurd hw List.not_mem_nil, rfl, hcap⟩
      · rw [h.last]
        rfl
  | cons w vs ih =>
      rw [List.foldlM_cons]
      by_cases hw : cap ≤ w.length
      · rw [oneValue, if_pos (.inl hw)]
        refine ⟨fun h => (by cases h), fun h => ?_⟩
        cases vs with
        | nil =>
            have hlast : v = w := h.last
            have hfits := h.fits
            rw [hlast] at hfits
            omega
        | cons x xs =>
            have hnil := h.earlier w (by rw [List.dropLast_cons_cons]; exact List.mem_cons_self)
            rw [hnil, List.length_nil] at hw
            omega
      · have hstep : oneValue cap [] w = some w := if_neg (fun h => h.elim hw (fun h => h rfl))
        rw [hstep]
        by_cases hnil : w = []
        · subst hnil
          show vs.foldlM (oneValue cap) [] = some v ↔ _
          rw [ih]
          cases vs with
          | nil =>
              exact ⟨fun h => ⟨fun w hw => absurd hw List.not_mem_nil, h.last, h.fits⟩,
                fun h => ⟨fun w hw => absurd hw List.not_mem_nil, h.last, h.fits⟩⟩
          | cons x xs =>
              refine ⟨fun h => ⟨?_, h.last, h.fits⟩, fun h => ⟨?_, h.last, h.fits⟩⟩
              · intro y hy
                rw [List.dropLast_cons_cons] at hy
                exact (List.mem_cons.mp hy).elim id (h.earlier y)
              · intro y hy
                exact h.earlier y (by rw [List.dropLast_cons_cons]; exact List.mem_cons_of_mem _ hy)
        · cases vs with
          | nil =>
              refine ⟨fun h => ?_, fun h => ?_⟩
              · cases h
                exact ⟨fun y hy => absurd hy List.not_mem_nil, rfl, Nat.lt_of_not_le hw⟩
              · rw [h.last]
                rfl
          | cons x xs =>
              show (do let out ← oneValue cap w x; xs.foldlM (oneValue cap) out) = some v ↔ _
              rw [oneValue_full hnil]
              refine ⟨fun h => (by cases h), fun h => ?_⟩
              exact absurd (h.earlier w (by rw [List.dropLast_cons_cons]; exact List.mem_cons_self)) hnil

/-! ## The length and the port -/

theorem digitsFrom_le (p : CStr) : ∀ n : Nat,
    n ≤ p.foldl (fun a c => 10 * a + (c.toNat - 48)) n := by
  induction p with
  | nil => exact fun n => Nat.le_refl n
  | cons c p ih =>
      intro n
      refine Nat.le_trans ?_ (ih (10 * n + (c.toNat - 48)))
      omega

theorem lengthDigits_ok (p : CStr) : ∀ {n m : Nat}, n ≤ REQUEST_CAP →
    (lengthDigits n p = .ok m ↔ (∀ c ∈ p, isDigit c = true) ∧
      m = p.foldl (fun a c => 10 * a + (c.toNat - 48)) n ∧ m ≤ REQUEST_CAP) := by
  induction p with
  | nil =>
      intro n m hn
      refine ⟨fun h => ?_, fun h => ?_⟩
      · cases h
        exact ⟨fun c hc => absurd hc List.not_mem_nil, rfl, hn⟩
      · rw [h.2.1]
        rfl
  | cons c p ih =>
      intro n m hn
      rw [lengthDigits]
      by_cases hc : isDigit c = true
      · have hcomm : n * 10 + (c.toNat - 48) = 10 * n + (c.toNat - 48) := by omega
        rw [if_pos hc]
        dsimp only
        rw [hcomm]
        by_cases hcap : REQUEST_CAP < 10 * n + (c.toNat - 48)
        · rw [if_pos hcap]
          refine ⟨fun h => (by cases h), fun h => ?_⟩
          have hle := digitsFrom_le p (10 * n + (c.toNat - 48))
          have heq : m = p.foldl (fun a c => 10 * a + (c.toNat - 48)) (10 * n + (c.toNat - 48)) :=
            h.2.1
          omega
        · rw [if_neg hcap, ih (Nat.le_of_not_lt hcap)]
          exact ⟨fun h => ⟨List.forall_mem_cons.mpr ⟨hc, h.1⟩, h.2⟩,
            fun h => ⟨(List.forall_mem_cons.mp h.1).2, h.2⟩⟩
      · rw [if_neg hc]
        exact ⟨fun h => (by cases h), fun h => absurd (h.1 c List.mem_cons_self) hc⟩

theorem portDigits_some (p : CStr) : ∀ {n m : Nat}, m ≤ 65535 →
    (portDigits n p = some m ↔ (∀ c ∈ p, isDigit c = true) ∧
      m = p.foldl (fun a c => 10 * a + (c.toNat - 48)) n) := by
  induction p with
  | nil =>
      intro n m _
      refine ⟨fun h => ?_, fun h => ?_⟩
      · cases h
        exact ⟨fun c hc => absurd hc List.not_mem_nil, rfl⟩
      · rw [h.2]
        rfl
  | cons c p ih =>
      intro n m hm
      rw [portDigits]
      by_cases hc : isDigit c = true
      · rw [hc]
        by_cases hbig : 6553 < n
        · rw [if_pos (by rw [decide_eq_true hbig]; rfl)]
          refine ⟨fun h => (by cases h), fun h => ?_⟩
          have hle := digitsFrom_le p (10 * n + (c.toNat - 48))
          have heq : m = p.foldl (fun a c => 10 * a + (c.toNat - 48)) (10 * n + (c.toNat - 48)) :=
            h.2
          omega
        · have hcomm : n * 10 + (c.toNat - 48) = 10 * n + (c.toNat - 48) := by omega
          rw [if_neg (by rw [decide_eq_false hbig]; decide), hcomm, ih hm]
          exact ⟨fun h => ⟨List.forall_mem_cons.mpr ⟨hc, h.1⟩, h.2⟩,
            fun h => ⟨(List.forall_mem_cons.mp h.1).2, h.2⟩⟩
      · rw [if_pos (by rw [Bool.not_eq_true _ |>.mp hc]; rfl)]
        exact ⟨fun h => (by cases h), fun h => absurd (h.1 c List.mem_cons_self) hc⟩

/-- The hosts with one of the two names. -/
theorem loopbackName_iff (host : CStr) :
    ((lit "127.0.0.1:").isPrefixOf host || (lit "localhost:").isPrefixOf host) = true ↔
      ∃ port, host = lit "127.0.0.1:" ++ port ∨ host = lit "localhost:" ++ port := by
  rw [Bool.or_eq_true, List.isPrefixOf_iff_prefix, List.isPrefixOf_iff_prefix, exists_or]
  exact or_congr ⟨fun h => h.imp fun _ ht => ht.symm, fun h => h.imp fun _ ht => ht.symm⟩
    ⟨fun h => h.imp fun _ ht => ht.symm, fun h => h.imp fun _ ht => ht.symm⟩

theorem loopbackPort {host port : CStr}
    (h : host = lit "127.0.0.1:" ++ port ∨ host = lit "localhost:" ++ port) :
    host.drop 10 = port := by
  rcases h with rfl | rfl
  · exact List.drop_left' (by decide)
  · exact List.drop_left' (by decide)

theorem loopbackHost_iff (host : CStr) : loopbackHost host = true ↔ Loopback host := by
  rw [loopbackHost]
  by_cases hname : ∃ port, host = lit "127.0.0.1:" ++ port ∨ host = lit "localhost:" ++ port
  · rw [if_pos ((loopbackName_iff host).mpr hname)]
    obtain ⟨port, hport⟩ := hname
    rw [loopbackPort hport]
    dsimp only
    by_cases hnil : port = []
    · rw [if_pos hnil]
      refine ⟨fun h => (by cases h), fun ⟨q, hq, hne, _⟩ => ?_⟩
      exact absurd ((loopbackPort hq).symm.trans ((loopbackPort hport).trans hnil)) hne
    · rw [if_neg hnil]
      constructor
      · intro h
        cases hvalue : portDigits 0 port with
        | none =>
            rw [hvalue] at h
            cases h
        | some value =>
            rw [hvalue] at h
            obtain ⟨hpos, hle⟩ := of_decide_eq_true h
            obtain ⟨hdigits, hval⟩ := (portDigits_some port hle).mp hvalue
            have hof : ofDigits port = value := hval.symm
            exact ⟨port, hport, hnil, hdigits, by omega, by omega⟩
      · rintro ⟨q, hq, -, hdigits, hpos, hle⟩
        obtain rfl : q = port := (loopbackPort hq).symm.trans (loopbackPort hport)
        rw [(portDigits_some q hle).mpr ⟨hdigits, rfl⟩]
        exact decide_eq_true ⟨hpos, hle⟩
  · rw [if_neg (fun h => hname ((loopbackName_iff host).mp h))]
    exact ⟨fun h => (by cases h), fun ⟨q, hq, _⟩ => absurd ⟨q, hq⟩ hname⟩

/-! ## The lines of the head -/

theorem contentLength_ok (s : CStr) (n : Nat) : contentLength s = .ok n ↔
    ∃ p, s.dropWhile (· == 32) = p ∧ p ≠ [] ∧ (∀ c ∈ p, isDigit c = true) ∧ ofDigits p = n ∧
      n ≤ REQUEST_CAP := by
  rw [contentLength]
  generalize s.dropWhile (· == 32) = p
  by_cases hp : p = []
  · rw [if_pos hp]
    exact ⟨fun h => (by cases h), fun ⟨q, hq, hne, _⟩ => absurd (hq.symm.trans hp) hne⟩
  · rw [if_neg hp, lengthDigits_ok p (Nat.zero_le _)]
    constructor
    · rintro ⟨hdigits, rfl, hle⟩
      exact ⟨p, rfl, hp, hdigits, rfl, hle⟩
    · rintro ⟨q, rfl, -, hdigits, rfl, hle⟩
      exact ⟨hdigits, rfl, hle⟩

/-- A line has one name only, where none starts the other. -/
theorem named_one {name other : String} {line : CStr} (h : named name line = true)
    (hne : ¬ (lit name).map Json.lower <+: (lit other).map Json.lower)
    (hne' : ¬ (lit other).map Json.lower <+: (lit name).map Json.lower) :
    named other line = false := by
  by_contra hother
  rw [Bool.not_eq_false] at hother
  rw [named, beq_iff_eq, List.map_take] at h hother
  have h1 : (lit name).map Json.lower <+: line.map Json.lower := h ▸ List.take_prefix _ _
  have h2 : (lit other).map Json.lower <+: line.map Json.lower := hother ▸ List.take_prefix _ _
  exact (List.prefix_or_prefix_of_prefix h1 h2).elim hne hne'

/-- The headers that `read_request` looks at. -/
def names : List String :=
  ["Host:", "Origin:", "Authorization:", "Transfer-Encoding:", "Content-Length:"]

/-- None of the names starts another one. -/
theorem names_apart : ∀ name ∈ names, ∀ other ∈ names, other ≠ name →
    ¬ (lit name).map Json.lower <+: (lit other).map Json.lower := by
  decide

theorem only_named {name : String} {line : CStr} (hn : name ∈ names)
    (h : named name line = true) : ∀ other ∈ names, other ≠ name → named other line = false :=
  fun other ho hne => named_one h (names_apart name hn other ho hne)
    (names_apart other ho name hn (Ne.symm hne))

theorem values_named {name : String} {l : CStr} (h : named name l = true) (lines : List CStr) :
    values name (l :: lines) = trimmed (l.drop (lit name).length) :: values name lines := by
  rw [values, List.filter_cons_of_pos h]
  rfl

theorem values_skip {name : String} {l : CStr} (h : named name l = false) (lines : List CStr) :
    values name (l :: lines) = values name lines := by
  rw [values, List.filter_cons_of_neg (by rw [h]; decide)]
  rfl

/-- A header of the length, when `o` is what is known. -/
def oneLength (o : Option Nat) (l : CStr) : Except Nat (Option Nat) :=
  if o.isSome then .error 400 else (contentLength (l.drop 15)).map some

/-- The fields that the lines leave, each by its own lines. -/
@[mk_iff]
structure Fields (lines : List CStr) (h h' : Header) : Prop where
  host : (values "Host:" lines).foldlM (oneValue 128) h.host = some h'.host
  origin : (values "Origin:" lines).foldlM (oneValue 160) h.origin = some h'.origin
  auth : (values "Authorization:" lines).foldlM (oneValue 128) h.auth = some h'.auth
  encoding : ∀ l ∈ lines, named "Transfer-Encoding:" l = false
  length : (lines.filter (named "Content-Length:")).foldlM oneLength h.length = .ok h'.length

theorem fields_nil (h h' : Header) : Fields [] h h' ↔ h = h' := by
  constructor
  · intro hf
    have hhost : some h.host = some h'.host := hf.host
    have horigin : some h.origin = some h'.origin := hf.origin
    have hauth : some h.auth = some h'.auth := hf.auth
    have hlength : Except.ok h.length = Except.ok h'.length := hf.length
    cases h
    cases h'
    simp_all
  · rintro rfl
    exact ⟨rfl, rfl, rfl, fun l hl => absurd hl List.not_mem_nil, rfl⟩

theorem lengths_skip {l : CStr} (h : named "Content-Length:" l = false) (lines : List CStr) :
    (l :: lines).filter (named "Content-Length:") = lines.filter (named "Content-Length:") :=
  List.filter_cons_of_neg (by rw [h]; decide)

theorem lengths_named {l : CStr} (h : named "Content-Length:" l = true) (lines : List CStr) :
    (l :: lines).filter (named "Content-Length:") =
      l :: lines.filter (named "Content-Length:") :=
  List.filter_cons_of_pos h

theorem fields_host {l : CStr} (hl : named "Host:" l = true) (lines : List CStr)
    (h h' : Header) :
    Fields (l :: lines) h h' ↔ ∃ m, headerLine h l = .ok m ∧ Fields lines m h' := by
  have only := only_named (by decide) hl
  have horigin := only "Origin:" (by decide) (by decide)
  have hauth := only "Authorization:" (by decide) (by decide)
  have hcoding := only "Transfer-Encoding:" (by decide) (by decide)
  have hlength := only "Content-Length:" (by decide) (by decide)
  rw [headerLine, if_pos hl, headerValue_eq, fields_iff, values_named hl,
    values_skip horigin, values_skip hauth, lengths_skip hlength, List.foldlM_cons,
    List.forall_mem_cons, show (lit "Host:").length = 5 by decide]
  cases oneValue 128 h.host (trimmed (l.drop 5)) with
  | none => exact ⟨fun hf => (by cases hf.1), fun ⟨m, hm, _⟩ => (by cases hm)⟩
  | some v =>
      constructor
      · rintro ⟨h1, h2, h3, h4, h5⟩
        exact ⟨_, rfl, h1, h2, h3, h4.2, h5⟩
      · rintro ⟨m, hm, hf⟩
        cases hm
        exact ⟨hf.host, hf.origin, hf.auth, ⟨hcoding, hf.encoding⟩, hf.length⟩

theorem fields_origin {l : CStr} (hl : named "Origin:" l = true) (lines : List CStr)
    (h h' : Header) :
    Fields (l :: lines) h h' ↔ ∃ m, headerLine h l = .ok m ∧ Fields lines m h' := by
  have only := only_named (by decide) hl
  have hhost := only "Host:" (by decide) (by decide)
  have hauth := only "Authorization:" (by decide) (by decide)
  have hcoding := only "Transfer-Encoding:" (by decide) (by decide)
  have hlength := only "Content-Length:" (by decide) (by decide)
  rw [headerLine, if_neg (by rw [hhost]; decide), if_pos hl, headerValue_eq, fields_iff, values_named hl,
    values_skip hhost, values_skip hauth, lengths_skip hlength, List.foldlM_cons,
    List.forall_mem_cons, show (lit "Origin:").length = 7 by decide]
  cases oneValue 160 h.origin (trimmed (l.drop 7)) with
  | none => exact ⟨fun hf => (by cases hf.2.1), fun ⟨m, hm, _⟩ => (by cases hm)⟩
  | some v =>
      constructor
      · rintro ⟨h1, h2, h3, h4, h5⟩
        exact ⟨_, rfl, h1, h2, h3, h4.2, h5⟩
      · rintro ⟨m, hm, hf⟩
        cases hm
        exact ⟨hf.host, hf.origin, hf.auth, ⟨hcoding, hf.encoding⟩, hf.length⟩

theorem fields_auth {l : CStr} (hl : named "Authorization:" l = true) (lines : List CStr)
    (h h' : Header) :
    Fields (l :: lines) h h' ↔ ∃ m, headerLine h l = .ok m ∧ Fields lines m h' := by
  have only := only_named (by decide) hl
  have hhost := only "Host:" (by decide) (by decide)
  have horigin := only "Origin:" (by decide) (by decide)
  have hcoding := only "Transfer-Encoding:" (by decide) (by decide)
  have hlength := only "Content-Length:" (by decide) (by decide)
  rw [headerLine, if_neg (by rw [hhost]; decide), 
    if_neg (by rw [horigin]; decide), if_pos hl, headerValue_eq, fields_iff, values_named hl,
    values_skip hhost, values_skip horigin, lengths_skip hlength, List.foldlM_cons,
    List.forall_mem_cons, show (lit "Authorization:").length = 14 by decide]
  cases oneValue 128 h.auth (trimmed (l.drop 14)) with
  | none => exact ⟨fun hf => (by cases hf.2.2.1), fun ⟨m, hm, _⟩ => (by cases hm)⟩
  | some v =>
      constructor
      · rintro ⟨h1, h2, h3, h4, h5⟩
        exact ⟨_, rfl, h1, h2, h3, h4.2, h5⟩
      · rintro ⟨m, hm, hf⟩
        cases hm
        exact ⟨hf.host, hf.origin, hf.auth, ⟨hcoding, hf.encoding⟩, hf.length⟩

theorem fields_length {l : CStr} (hl : named "Content-Length:" l = true) (lines : List CStr)
    (h h' : Header) :
    Fields (l :: lines) h h' ↔ ∃ m, headerLine h l = .ok m ∧ Fields lines m h' := by
  have only := only_named (by decide) hl
  have hhost := only "Host:" (by decide) (by decide)
  have horigin := only "Origin:" (by decide) (by decide)
  have hauth := only "Authorization:" (by decide) (by decide)
  have hcoding := only "Transfer-Encoding:" (by decide) (by decide)
  rw [headerLine, if_neg (by rw [hhost]; decide), if_neg (by rw [horigin]; decide),
    if_neg (by rw [hauth]; decide), if_neg (by rw [hcoding]; decide), if_pos hl, fields_iff,
    values_skip hhost, values_skip horigin, values_skip hauth, List.forall_mem_cons,
    lengths_named hl, List.foldlM_cons, oneLength]
  by_cases hknown : h.length.isSome = true
  · rw [if_pos hknown, if_pos hknown]
    exact ⟨fun hf => (by cases hf.2.2.2.2), fun ⟨m, hm, _⟩ => (by cases hm)⟩
  · rw [if_neg hknown, if_neg hknown]
    cases contentLength (l.drop 15) with
    | error e => exact ⟨fun hf => (by cases hf.2.2.2.2), fun ⟨m, hm, _⟩ => (by cases hm)⟩
    | ok n =>
        constructor
        · rintro ⟨h1, h2, h3, h4, h5⟩
          exact ⟨_, rfl, h1, h2, h3, h4.2, h5⟩
        · rintro ⟨m, hm, hf⟩
          cases hm
          exact ⟨hf.host, hf.origin, hf.auth, ⟨hcoding, hf.encoding⟩, hf.length⟩

/-- One line, and the lines behind it. -/
theorem fields_cons (l : CStr) (lines : List CStr) (h h' : Header) :
    Fields (l :: lines) h h' ↔ ∃ m, headerLine h l = .ok m ∧ Fields lines m h' := by
  by_cases hhost : named "Host:" l = true
  · exact fields_host hhost lines h h'
  by_cases horigin : named "Origin:" l = true
  · exact fields_origin horigin lines h h'
  by_cases hauth : named "Authorization:" l = true
  · exact fields_auth hauth lines h h'
  by_cases hlength : named "Content-Length:" l = true
  · exact fields_length hlength lines h h'
  rw [headerLine, if_neg hhost, if_neg horigin, if_neg hauth, if_neg hlength, fields_iff,
    values_skip (Bool.not_eq_true _ |>.mp hhost), values_skip (Bool.not_eq_true _ |>.mp horigin),
    values_skip (Bool.not_eq_true _ |>.mp hauth), lengths_skip (Bool.not_eq_true _ |>.mp hlength),
    List.forall_mem_cons]
  by_cases hcoding : named "Transfer-Encoding:" l = true
  · rw [if_pos hcoding]
    exact ⟨fun hf => absurd hcoding (by rw [hf.2.2.2.1.1]; decide),
      fun ⟨m, hm, _⟩ => (by cases hm)⟩
  · rw [if_neg hcoding]
    constructor
    · rintro ⟨h1, h2, h3, h4, h5⟩
      exact ⟨h, rfl, h1, h2, h3, h4.2, h5⟩
    · rintro ⟨m, hm, hf⟩
      cases hm
      exact ⟨hf.host, hf.origin, hf.auth, ⟨Bool.not_eq_true _ |>.mp hcoding, hf.encoding⟩,
        hf.length⟩

/-- Every header field has its value from the lines of its own name. -/
theorem headers_ok (lines : List CStr) : ∀ h h' : Header,
    lines.foldlM headerLine h = .ok h' ↔ Fields lines h h' := by
  induction lines with
  | nil =>
      intro h h'
      rw [fields_nil]
      exact ⟨fun he => by cases he; rfl, fun he => by rw [he]; rfl⟩
  | cons l lines ih =>
      intro h h'
      rw [fields_cons, List.foldlM_cons]
      cases headerLine h l with
      | error e => exact ⟨fun he => (by cases he), fun ⟨m, hm, _⟩ => (by cases hm)⟩
      | ok m =>
          refine ⟨fun he => ⟨m, rfl, (ih m h').mp he⟩, ?_⟩
          rintro ⟨k, hk, hf⟩
          cases hk
          exact (ih m h').mpr hf

/-- A second header of the length is refused. -/
theorem lengths_full {n : Nat} {ls : List CStr} {o : Option Nat} :
    ls.foldlM oneLength (some n) = .ok o ↔ ls = [] ∧ o = some n := by
  cases ls with
  | nil => exact ⟨fun h => ⟨rfl, by cases h; rfl⟩, fun h => by rw [h.2]; rfl⟩
  | cons l ls => exact ⟨fun h => (by cases h), fun h => absurd h.1 (List.cons_ne_nil _ _)⟩

theorem lengths_first {l : CStr} {ls : List CStr} {o : Option Nat} :
    (l :: ls).foldlM oneLength none = .ok o ↔
      ∃ n, contentLength (l.drop 15) = .ok n ∧ ls = [] ∧ o = some n := by
  rw [List.foldlM_cons]
  show (do let o ← (contentLength (l.drop 15)).map some; ls.foldlM oneLength o) = .ok o ↔ _
  cases contentLength (l.drop 15) with
  | error e => exact ⟨fun h => (by cases h), fun ⟨n, hn, _⟩ => (by cases hn)⟩
  | ok n =>
      show ls.foldlM oneLength (some n) = .ok o ↔ _
      rw [lengths_full]
      constructor
      · rintro ⟨hls, ho⟩
        exact ⟨n, rfl, hls, ho⟩
      · rintro ⟨k, hk, hls, ho⟩
        cases hk
        exact ⟨hls, ho⟩

/-- The length that the lines declare. -/
theorem lengths_declared (lines : List CStr) (n : Nat) :
    (∃ o, (lines.filter (named "Content-Length:")).foldlM oneLength none = .ok o ∧ o.getD 0 = n) ↔
      Declared lines n := by
  cases hlines : lines.filter (named "Content-Length:") with
  | nil =>
      constructor
      · rintro ⟨o, ho, rfl⟩
        cases ho
        exact .none hlines
      · intro h
        cases h with
        | none => exact ⟨none, rfl, rfl⟩
        | one h =>
            rw [hlines] at h
            cases h
  | cons l more =>
      constructor
      · rintro ⟨o, ho, rfl⟩
        obtain ⟨n, hn, rfl, rfl⟩ := lengths_first.mp ho
        obtain ⟨p, hp, hne, hdigits, rfl, hle⟩ := (contentLength_ok _ _).mp hn
        exact .one hlines hp hne hdigits hle
      · intro h
        cases h with
        | none h =>
            rw [hlines] at h
            cases h
        | one h hp hne hdigits hle =>
            rw [hlines] at h
            cases h
            exact ⟨some _, lengths_first.mpr
              ⟨_, (contentLength_ok _ _).mpr ⟨_, hp, hne, hdigits, rfl, hle⟩, rfl, rfl⟩, rfl⟩

/-! ## What is accepted -/

/-- The stream starts with the text of a request, and `r` is what it says. -/
structure Spells (stream : Bytes) (first : CStr) (lines : List CStr) (rest : Bytes)
    (r : Request) : Prop where
  text : stream = headText first lines ++ rest
  whole : Whole first lines
  plain : 0 ∉ headText first lines
  fits : (headText first lines).length ≤ HEADER_CAP
  line : ∃ version, scanLine first = some (r.method, r.path, version) ∧
    (version = lit "HTTP/1.1" ∨ version = lit "HTTP/1.0")
  host : Sole 128 (values "Host:" lines) r.host
  origin : Sole 160 (values "Origin:" lines) r.origin
  auth : Sole 128 (values "Authorization:" lines) r.auth
  encoding : ∀ l ∈ lines, named "Transfer-Encoding:" l = false
  body : ∃ n, Declared lines n ∧ n ≤ rest.length ∧ r.body = rest.take n ∧ 0 ∉ r.body

/-- The checks against other sites. -/
structure SameSite (r : Request) : Prop where
  host : Loopback r.host
  origin : r.origin = [] ∨ r.origin = lit "http://" ++ r.host

theorem requestLine_ok (first : CStr) (headers : Except Nat Header) (method path : CStr)
    (h : Header) : requestLine first headers = .ok (method, path, h) ↔
      (∃ version, scanLine first = some (method, path, version) ∧
        (version = lit "HTTP/1.1" ∨ version = lit "HTTP/1.0")) ∧ headers = .ok h := by
  rw [requestLine]
  cases scanLine first with
  | none => exact ⟨fun he => (by cases he), fun ⟨⟨v, hv, _⟩, _⟩ => (by cases hv)⟩
  | some words =>
      obtain ⟨m, p, version⟩ := words
      dsimp only
      by_cases hversion : version ≠ lit "HTTP/1.1" ∧ version ≠ lit "HTTP/1.0"
      · rw [if_pos hversion]
        refine ⟨fun he => (by cases he), fun ⟨⟨v, hv, hor⟩, _⟩ => ?_⟩
        cases hv
        exact absurd hor (not_or.mpr hversion)
      · rw [if_neg hversion]
        have hor : version = lit "HTTP/1.1" ∨ version = lit "HTTP/1.0" := by
          by_contra hno
          exact hversion (not_or.mp hno)
        cases headers with
        | error e => exact ⟨fun he => (by cases he), fun ⟨_, he⟩ => (by cases he)⟩
        | ok h' =>
            constructor
            · intro he
              cases he
              exact ⟨⟨version, rfl, hor⟩, rfl⟩
            · rintro ⟨⟨v, hv, -⟩, he⟩
              cases hv
              cases he
              rfl

theorem guarded_iff (unixSocket : Bool) (h : Header) : guarded unixSocket h = true ↔
    unixSocket = true ∨ Loopback h.host ∧ (h.origin = [] ∨ h.origin = lit "http://" ++ h.host) := by
  rw [guarded, Bool.or_eq_true, Bool.and_eq_true, Bool.or_eq_true, beq_iff_eq, beq_iff_eq,
    loopbackHost_iff]

/-- The text in front of what `headEnd` has found. -/
theorem head_spelled {stream : Bytes} {stop : Nat}
    (h : headEnd (stream.take HEADER_CAP) = some stop) :
    ∃ first lines rest, stream = headText first lines ++ rest ∧ Whole first lines ∧
      0 ∉ headText first lines ∧ (headText first lines).length ≤ HEADER_CAP := by
  obtain ⟨first, lines, more, hcstr, hwhole, -⟩ := headEnd_text h
  have hprefix : headText first lines <+: stream.take HEADER_CAP :=
    (List.prefix_append _ more).trans (hcstr ▸ List.takeWhile_prefix _)
  obtain ⟨rest, hrest⟩ := hprefix.trans (List.take_prefix _ _)
  refine ⟨first, lines, rest, hrest.symm, hwhole, ?_, ?_⟩
  · intro hzero
    have hmem : (0 : UInt8) ∈ cstr (stream.take HEADER_CAP) := by
      rw [hcstr]
      exact List.mem_append_left _ hzero
    have := List.all_eq_true.mp (List.all_takeWhile (p := fun c : UInt8 => decide (c ≠ 0))) 0 hmem
    exact absurd this (by decide)
  · exact hprefix.length_le.trans (by rw [List.length_take]; exact Nat.min_le_left _ _)

theorem cstr_plain {s : Bytes} (h : 0 ∉ s) (t : Bytes) : cstr (s ++ t) = s ++ cstr t := by
  refine List.takeWhile_append_of_pos fun c hc => ?_
  exact decide_eq_true fun he => h (he ▸ hc)

/-- What `headEnd` finds in a text. -/
theorem spelled_head {first : CStr} {lines : List CStr} (hwhole : Whole first lines)
    (hplain : 0 ∉ headText first lines) (hfits : (headText first lines).length ≤ HEADER_CAP)
    (rest : Bytes) : headEnd ((headText first lines ++ rest).take HEADER_CAP) =
      some (first.length + (joined 13 10 lines).length) := by
  rw [List.take_append, List.take_of_length_le hfits, headEnd, cstr_plain hplain]
  exact find_blank crlf_differ hwhole.first hwhole.lines _

/-- The head and the body that `readAtOnce` reads. -/
theorem readAtOnce_text {first : CStr} {lines : List CStr} (hwhole : Whole first lines)
    (hplain : 0 ∉ headText first lines) (hfits : (headText first lines).length ≤ HEADER_CAP)
    (rest : Bytes) (unixSocket : Bool) (gone : Gone) :
    readAtOnce unixSocket (headText first lines ++ rest) gone =
      (requestLine first (lines.foldlM headerLine {})).bind fun head =>
        readBody unixSocket head (receiveAtOnce rest gone) := by
  have hhead := readHead_text hwhole []
  rw [List.append_nil] at hhead
  have hlen := headText_length first lines
  rw [readAtOnce, spelled_head hwhole hplain hfits rest]
  dsimp only
  rw [cstr_plain hplain, List.take_left' hlen, List.drop_left' hlen, hhead]

theorem readBody_ok (unixSocket : Bool) (method path : CStr) (h : Header) (rest : Bytes)
    (gone : Gone) (r : Request) :
    readBody unixSocket (method, path, h) (receiveAtOnce rest gone) = .ok r ↔
      guarded unixSocket h = true ∧ h.length.getD 0 ≤ rest.length ∧
      r = ⟨method, path, h.host, h.origin, h.auth, rest.take (h.length.getD 0)⟩ ∧ 0 ∉ r.body := by
  rw [readBody]
  by_cases hguard : guarded unixSocket h = true
  · rw [if_pos hguard, receiveAtOnce]
    by_cases hle : h.length.getD 0 ≤ rest.length
    · rw [if_pos hle]
      dsimp only
      by_cases hzero : 0 ∈ rest.take (h.length.getD 0)
      · rw [if_pos hzero]
        refine ⟨fun he => (by cases he), fun h => ?_⟩
        obtain ⟨-, -, hr, hno⟩ := h
        rw [hr] at hno
        exact absurd hzero hno
      · rw [if_neg hzero]
        constructor
        · intro he
          cases he
          exact ⟨hguard, hle, rfl, hzero⟩
        · rintro ⟨-, -, hr, -⟩
          rw [hr]
    · rw [if_neg hle]
      exact ⟨fun he => (by cases he), fun h => absurd h.2.1 hle⟩
  · rw [if_neg hguard]
    exact ⟨fun he => (by cases he), fun h => absurd h.1 hguard⟩

/-- The texts that `read_request` accepts. -/
theorem readRequest_ok (unixSocket : Bool) (peer : Peer UInt8 Gone) (r : Request) :
    readRequest unixSocket peer = .ok r ↔
      (∃ first lines rest, Spells peer.stream first lines rest r) ∧
        (unixSocket = true ∨ SameSite r) := by
  rw [readRequest_whole]
  constructor
  · intro hread
    obtain ⟨stop, hstop⟩ : ∃ stop, headEnd (peer.stream.take HEADER_CAP) = some stop := by
      cases hend : headEnd (peer.stream.take HEADER_CAP) with
      | none =>
          rw [readAtOnce, hend] at hread
          cases hread
      | some stop => exact ⟨stop, rfl⟩
    obtain ⟨first, lines, rest, htext, hwhole, hplain, hfits⟩ := head_spelled hstop
    rw [htext, readAtOnce_text hwhole hplain hfits] at hread
    cases hline : requestLine first (lines.foldlM headerLine {}) with
    | error e =>
        rw [hline] at hread
        cases hread
    | ok head =>
        rw [hline] at hread
        obtain ⟨method, path, h⟩ := head
        obtain ⟨hversion, hheaders⟩ := (requestLine_ok _ _ _ _ _).mp hline
        have hf := (headers_ok lines {} h).mp hheaders
        obtain ⟨hguard, hle, rfl, hzero⟩ := (readBody_ok _ _ _ _ _ _ _).mp hread
        refine ⟨⟨first, lines, rest, ?_⟩, ?_⟩
        · exact
            { text := htext
              whole := hwhole
              plain := hplain
              fits := hfits
              line := hversion
              host := (values_sole (by decide) _ _).mp hf.host
              origin := (values_sole (by decide) _ _).mp hf.origin
              auth := (values_sole (by decide) _ _).mp hf.auth
              encoding := hf.encoding
              body := ⟨_, (lengths_declared lines _).mp ⟨_, hf.length, rfl⟩, hle, rfl, hzero⟩ }
        · exact ((guarded_iff _ _).mp hguard).imp_right fun hg => ⟨hg.1, hg.2⟩
  · rintro ⟨⟨first, lines, rest, hs⟩, hsite⟩
    obtain ⟨n, hn, hle, hbody, hzero⟩ := hs.body
    obtain ⟨o, ho, rfl⟩ := (lengths_declared lines n).mpr hn
    have hf : Fields lines {} ⟨r.host, r.origin, r.auth, o⟩ :=
      { host := (values_sole (by decide) _ _).mpr hs.host
        origin := (values_sole (by decide) _ _).mpr hs.origin
        auth := (values_sole (by decide) _ _).mpr hs.auth
        encoding := hs.encoding
        length := ho }
    have hline := (requestLine_ok first _ r.method r.path _).mpr
      ⟨hs.line, (headers_ok lines {} _).mpr hf⟩
    rw [hs.text, readAtOnce_text hs.whole hs.plain hs.fits, hline]
    refine (readBody_ok _ _ _ _ _ _ _).mpr ⟨?_, hle, ?_, hzero⟩
    · exact (guarded_iff _ _).mpr (hsite.imp_right fun h => ⟨h.host, h.origin⟩)
    · rw [← hbody]

example : readRequest false
    ⟨lit "POST /app/quit HTTP/1.1\r\nhost: localhost:80 \r\nContent-Length: 2\r\n\r\n\x7b\x7d..", [7, 1, 40],
      .closed⟩ =
    .ok { method := lit "POST", path := lit "/app/quit", host := lit "localhost:80",
          body := lit "\x7b\x7d" } := by
  decide +kernel

/-! ## What runs -/

theorem xor_zero_iff {a b : UInt8} : a ^^^ b = 0 ↔ a = b := by
  rw [← UInt8.toBitVec_inj, ← UInt8.toBitVec_inj, UInt8.toBitVec_xor]
  exact BitVec.xor_eq_zero_iff

theorem or_zero_iff {a b : UInt8} : a ||| b = 0 ↔ a = 0 ∧ b = 0 := by
  rw [← UInt8.toBitVec_inj, ← UInt8.toBitVec_inj, ← UInt8.toBitVec_inj, UInt8.toBitVec_or]
  exact BitVec.or_eq_zero_iff

/-- The bits in which two texts of one length differ. -/
theorem mismatch_zero : ∀ {s t : CStr} {acc : UInt8}, s.length = t.length →
    ((List.zipWith (· ^^^ ·) s t).foldl (· ||| ·) acc = 0 ↔ acc = 0 ∧ s = t) := by
  intro s
  induction s with
  | nil =>
      intro t acc hlen
      rw [List.length_eq_zero_iff.mp hlen.symm]
      exact ⟨fun h => ⟨h, rfl⟩, fun h => h.1⟩
  | cons a s ih =>
      intro t acc hlen
      cases t with
      | nil => cases hlen
      | cons b t =>
          rw [List.zipWith_cons_cons, List.foldl_cons, ih (Nat.succ.inj hlen), or_zero_iff,
            xor_zero_iff, List.cons.injEq, and_assoc]

theorem expected_whole (token : Token) :
    (lit "Bearer " ++ token.text).take 79 = lit "Bearer " ++ token.text := by
  refine List.take_of_length_le ?_
  rw [List.length_append, token.length]
  decide

theorem authorized_iff (token : Token) (r : Request) :
    authorized token r = true ↔ r.auth = lit "Bearer " ++ token.text := by
  rw [authorized, expected_whole]
  by_cases hlen : r.auth.length ≠ (lit "Bearer " ++ token.text).length
  · rw [if_pos hlen]
    exact ⟨fun h => (by cases h), fun h => absurd (congrArg List.length h) hlen⟩
  · rw [if_neg hlen, beq_iff_eq, mismatch_zero (Decidable.not_not.mp hlen)]
    exact ⟨fun h => h.2, fun h => ⟨rfl, h⟩⟩

theorem handle_run (token : Token) (unixSocket : Bool) (peer : Peer UInt8 Gone) (e : Endpoint)
    (r : Request) : handle token unixSocket peer = .run e r ↔
      readRequest unixSocket peer = .ok r ∧ ¬ (r.method = lit "GET" ∧ r.path ∈ assets) ∧
        authorized token r = true ∧ endpoint r = .ok e := by
  rw [handle]
  cases readRequest unixSocket peer with
  | error status => exact ⟨fun h => (by cases h), fun h => (by cases h.1)⟩
  | ok q =>
      dsimp only
      rw [Except.ok.injEq]
      have hlisted : (q.method = lit "GET" ∧ assets.contains q.path = true) ↔
          (q.method = lit "GET" ∧ q.path ∈ assets) := and_congr_right' List.contains_iff_mem
      by_cases hasset : q.method = lit "GET" ∧ q.path ∈ assets
      · rw [if_pos (hlisted.mpr hasset)]
        refine ⟨fun h => (by cases h), fun h => ?_⟩
        exact absurd hasset (h.1 ▸ h.2.1)
      · rw [if_neg (mt hlisted.mp hasset)]
        by_cases hauth : authorized token q = true
        · rw [if_pos hauth]
          cases hend : endpoint q with
          | error status =>
              refine ⟨fun h => (by cases h), fun h => ?_⟩
              obtain ⟨hr, -, -, he⟩ := h
              rw [← hr, hend] at he
              cases he
          | ok e' =>
              constructor
              · intro h
                cases h
                exact ⟨rfl, hasset, hauth, hend⟩
              · rintro ⟨rfl, -, -, he⟩
                rw [hend] at he
                cases he
                rfl
        · rw [if_neg hauth]
          refine ⟨fun h => (by cases h), fun h => ?_⟩
          exact absurd (h.1 ▸ h.2.2.1) hauth

/-- An endpoint runs for the accepted requests that carry the token, and for no others. -/
theorem handle_runs_exactly (token : Token) (unixSocket : Bool) (peer : Peer UInt8 Gone)
    (e : Endpoint) (r : Request) : handle token unixSocket peer = .run e r ↔
      (∃ first lines rest, Spells peer.stream first lines rest r) ∧
        (unixSocket = true ∨ SameSite r) ∧ ¬ (r.method = lit "GET" ∧ r.path ∈ assets) ∧
        r.auth = lit "Bearer " ++ token.text ∧ endpoint r = .ok e := by
  rw [handle_run, readRequest_ok, authorized_iff, and_assoc]

end GeistServe.Http
