import GeistServe.Client.Framing

/-!
# Frames come through

Daemon and client have a reader and a writer of frames each. Both readers are
one function of the bytes that arrive, `RawFrame.decode`, and both writers put
out `RawFrame.encode`. The two directions of that codec, that an encoded frame
is decoded and that nothing else is, are `decode_encode` and `decode_exact`.

The rest is the library's: a reader of one frame splits what arrives into the
frames that it begins with, there is only one way to do that, and what a writer
got out is split in the same way.
-/

namespace GeistServe.Proofs

open GeistServe.Lib GeistServe.Geistd GeistServe.Client

/-! ## The codec -/

/-- A frame within the limits. -/
structure Legal (f : RawFrame) : Prop where
  hdr_pos : 0 < f.hdr.length
  hdr_cap : f.hdr.length ≤ HDR_CAP
  body_cap : f.body.length ≤ BODY_CAP

def encode (f : RawFrame) : Bytes := f.pre ++ f.hdr ++ f.body

/-- The frame that the bytes begin with, and the bytes behind it. -/
def decode (s : Bytes) : Option (RawFrame × Bytes) :=
  if s.length < 8 then none
  else
    let hl := rdU32 s
    let bl := rdU32 (s.drop 4)
    if hl = 0 ∨ hl > HDR_CAP ∨ bl > BODY_CAP then none
    else if s.length < 8 + hl + bl then none
    else some (⟨(s.drop 8).take hl, (s.drop (8 + hl)).take bl⟩, s.drop (8 + hl + bl))

/-- Disjoint bits are added. -/
theorem or_shiftLeft {a : Nat} {k : Nat} (b : Nat) (h : a < 2 ^ k) :
    a ||| b <<< k = a + 2 ^ k * b := by
  rw [Nat.or_comm, ← Nat.shiftLeft_add_eq_or_of_lt h, Nat.shiftLeft_eq, Nat.mul_comm, Nat.add_comm]

theorem rdU32_eq (b : Bytes) :
    rdU32 b = (b.getD 0 0).toNat + 2 ^ 8 * (b.getD 1 0).toNat + 2 ^ 16 * (b.getD 2 0).toNat +
      2 ^ 24 * (b.getD 3 0).toNat := by
  have h0 := (b.getD 0 0).toNat_lt
  have h1 := (b.getD 1 0).toNat_lt
  have h2 := (b.getD 2 0).toNat_lt
  rw [rdU32, or_shiftLeft _ (show _ < 2 ^ 8 by omega), or_shiftLeft _ (show _ < 2 ^ 16 by omega),
    or_shiftLeft _ (show _ < 2 ^ 24 by omega)]

theorem rdU32_wrU32 {v : Nat} (h : v < 2 ^ 32) (rest : Bytes) :
    rdU32 (wrU32 v ++ rest) = v := by
  rw [rdU32_eq]
  simp only [wrU32, List.cons_append, List.getD_cons_zero, List.getD_cons_succ, UInt8.toNat_ofNat',
    Nat.shiftRight_eq_div_pow]
  omega

theorem wrU32_length (v : Nat) : (wrU32 v).length = 4 := rfl

/-- Four bytes are what is written for the number that they are. -/
theorem wrU32_rdU32 {b : Bytes} (h : b.length = 4) (rest : Bytes) :
    wrU32 (rdU32 (b ++ rest)) = b := by
  match b, h with
  | [b0, b1, b2, b3], _ =>
      have h0 := b0.toNat_lt
      have h1 := b1.toNat_lt
      have h2 := b2.toNat_lt
      have h3 := b3.toNat_lt
      rw [rdU32_eq]
      simp only [List.cons_append, List.getD_cons_zero, List.getD_cons_succ]
      have hbyte : ∀ {n : Nat} {b : UInt8}, n % 2 ^ 8 = b.toNat → UInt8.ofNat n = b := by
        intro n b hn
        refine UInt8.toNat_inj.mp ?_
        rw [UInt8.toNat_ofNat']
        exact hn
      simp only [wrU32, Nat.shiftRight_eq_div_pow]
      rw [hbyte (b := b0) (by omega), hbyte (b := b1) (by omega), hbyte (b := b2) (by omega),
        hbyte (b := b3) (by omega)]

theorem encode_length (f : RawFrame) :
    (encode f).length = 8 + f.hdr.length + f.body.length := by
  simp only [encode, RawFrame.pre, List.length_append, wrU32_length]

theorem encode_ne_nil (f : RawFrame) : encode f ≠ [] := by
  intro h
  have hlen := encode_length f
  rw [h, List.length_nil] at hlen
  omega

theorem decode_encode {f : RawFrame} (h : Legal f) (rest : Bytes) :
    decode (encode f ++ rest) = some (f, rest) := by
  have hcap := h.hdr_cap
  have hbody := h.body_cap
  have hpos := h.hdr_pos
  unfold HDR_CAP at hcap
  unfold BODY_CAP at hbody
  have hlen := encode_length f
  have hs : encode f ++ rest =
      wrU32 f.hdr.length ++ (wrU32 f.body.length ++ (f.hdr ++ (f.body ++ rest))) := by
    simp only [encode, RawFrame.pre, List.append_assoc]
  have hhl : rdU32 (encode f ++ rest) = f.hdr.length := by
    rw [hs, rdU32_wrU32 (by omega)]
  have hdrop4 : (encode f ++ rest).drop 4 =
      wrU32 f.body.length ++ (f.hdr ++ (f.body ++ rest)) := by
    rw [hs]
    rfl
  have hbl : rdU32 ((encode f ++ rest).drop 4) = f.body.length := by
    rw [hdrop4, rdU32_wrU32 (by omega)]
  have hdrop8 : (encode f ++ rest).drop 8 = f.hdr ++ (f.body ++ rest) := by
    rw [show (8 : Nat) = 4 + 4 from rfl, ← List.drop_drop, hdrop4]
    rfl
  have hdrop : (encode f ++ rest).drop (8 + f.hdr.length) = f.body ++ rest := by
    rw [← List.drop_drop, hdrop8, List.drop_left]
  have hlen' : (encode f ++ rest).length = 8 + f.hdr.length + f.body.length + rest.length := by
    rw [List.length_append, hlen]
  rw [decode, if_neg (by omega)]
  simp only [hhl, hbl]
  rw [if_neg (by unfold HDR_CAP BODY_CAP; omega), if_neg (by omega), hdrop8, hdrop,
    List.take_left, List.take_left, ← List.drop_drop, hdrop, List.drop_left]

theorem decode_exact {s rest : Bytes} {f : RawFrame} (h : decode s = some (f, rest)) :
    Legal f ∧ s = encode f ++ rest := by
  unfold decode at h
  split at h
  · cases h
  · next hlen =>
      simp only at h
      split at h
      · cases h
      · next hlegal =>
          split at h
          · cases h
          · next hfull =>
              rw [not_or, not_or] at hlegal
              obtain ⟨hpos, hcap, hbody⟩ := hlegal
              simp only [Option.some.injEq, Prod.mk.injEq] at h
              obtain ⟨rfl, rfl⟩ := h
              have hhl : ((s.drop 8).take (rdU32 s)).length = rdU32 s := by
                rw [List.length_take, List.length_drop]
                omega
              have hbl : ((s.drop (8 + rdU32 s)).take (rdU32 (s.drop 4))).length =
                  rdU32 (s.drop 4) := by
                rw [List.length_take, List.length_drop]
                omega
              refine ⟨⟨by rw [hhl]; omega, by rw [hhl]; omega, by rw [hbl]; omega⟩, ?_⟩
              have hpre : wrU32 (rdU32 s) = s.take 4 := by
                have := wrU32_rdU32 (b := s.take 4) (by rw [List.length_take]; omega) (s.drop 4)
                rwa [List.take_append_drop] at this
              have hpre' : wrU32 (rdU32 (s.drop 4)) = (s.drop 4).take 4 := by
                have := wrU32_rdU32 (b := (s.drop 4).take 4)
                  (by rw [List.length_take, List.length_drop]; omega) ((s.drop 4).drop 4)
                rwa [List.take_append_drop] at this
              rw [encode, RawFrame.pre, hhl, hbl, hpre, hpre']
              -- The parts of `s` in their order are `s`.
              simp only [List.append_assoc]
              rw [← List.drop_drop (i := rdU32 (s.drop 4)), List.take_append_drop,
                ← List.drop_drop (i := rdU32 s), List.take_append_drop,
                show (8 : Nat) = 4 + 4 from rfl, ← List.drop_drop, List.take_append_drop,
                List.take_append_drop]

theorem frames_prefixFree : PrefixFree encode Legal := by
  rintro x y hx hy ⟨rest, h⟩
  have hy' := decode_encode hy []
  rw [List.append_nil, ← h, decode_encode hx rest] at hy'
  injection hy' with hy'
  exact congrArg Prod.fst hy'

theorem decode_none {s : Bytes} (h : decode s = none) (f : RawFrame) (hf : Legal f) :
    ¬ encode f <+: s := by
  rintro ⟨rest, rfl⟩
  rw [decode_encode hf] at h
  cases h

/-! ## The readers -/

/-- Both readers, without what they say when there is no frame. -/
def readParts (again : Errno → Bool) (inp : List (Arrival Errno)) :
    Option (RawFrame × List (Arrival Errno)) :=
  match readExact again 8 inp with
  | none => none
  | some (pre, inp) =>
      if rdU32 pre = 0 ∨ rdU32 pre > HDR_CAP ∨ rdU32 (pre.drop 4) > BODY_CAP then none
      else match readExact again (rdU32 pre) inp with
        | none => none
        | some (hdr, inp) =>
            if rdU32 (pre.drop 4) = 0 then some (⟨hdr, []⟩, inp)
            else match readExact again (rdU32 (pre.drop 4)) inp with
              | none => none
              | some (body, inp) => some (⟨hdr, body⟩, inp)

theorem rdU32_take (s : Bytes) {n : Nat} (h : 4 ≤ n) : rdU32 (s.take n) = rdU32 s := by
  have hget : ∀ i, i < 4 → (s.take n).getD i 0 = s.getD i 0 := by
    intro i hi
    rw [List.getD_eq_getElem?_getD, List.getD_eq_getElem?_getD, List.getElem?_take,
      if_pos (by omega)]
  rw [rdU32, rdU32, hget 0 (by omega), hget 1 (by omega), hget 2 (by omega), hget 3 (by omega)]

/-- A reader finds the frame that the bytes begin with, or no frame. -/
theorem readParts_decode (again : Errno → Bool) (inp : List (Arrival Errno)) :
    (∃ f rest, readParts again inp = some (f, rest) ∧
      decode (stream again inp) = some (f, stream again rest)) ∨
      readParts again inp = none ∧ decode (stream again inp) = none := by
  have hdecode := decode.eq_def (stream again inp)
  unfold readParts
  by_cases h8 : (stream again inp).length < 8
  · rw [if_pos h8] at hdecode
    rw [readExact_none again h8]
    exact .inr ⟨rfl, hdecode⟩
  obtain ⟨inp₁, hread₁, hs₁⟩ := readExact_some again (Nat.le_of_not_lt h8)
  have hhl : rdU32 ((stream again inp).take 8) = rdU32 (stream again inp) := rdU32_take _ (by omega)
  have hbl : rdU32 (((stream again inp).take 8).drop 4) = rdU32 ((stream again inp).drop 4) := by
    rw [List.drop_take, rdU32_take _ (by omega)]
  rw [hread₁]
  simp only [hhl, hbl]
  rw [if_neg h8] at hdecode
  simp only at hdecode
  generalize rdU32 (stream again inp) = hl at hdecode ⊢
  generalize rdU32 ((stream again inp).drop 4) = bl at hdecode ⊢
  by_cases hlegal : hl = 0 ∨ hl > HDR_CAP ∨ bl > BODY_CAP
  · rw [if_pos hlegal] at hdecode ⊢
    exact .inr ⟨rfl, hdecode⟩
  rw [if_neg hlegal] at hdecode ⊢
  have hlen₁ : (stream again inp₁).length = (stream again inp).length - 8 := by
    rw [hs₁, List.length_drop]
  by_cases hhdr : (stream again inp₁).length < hl
  · rw [if_pos (by omega)] at hdecode
    rw [readExact_none again hhdr]
    exact .inr ⟨rfl, hdecode⟩
  obtain ⟨inp₂, hread₂, hs₂⟩ := readExact_some again (Nat.le_of_not_lt hhdr)
  have hlen₂ : (stream again inp₂).length = (stream again inp).length - 8 - hl := by
    rw [hs₂, List.length_drop, hlen₁]
  rw [hread₂]
  simp only
  rw [hs₁] at hs₂ ⊢
  rw [List.drop_drop] at hs₂
  by_cases hzero : bl = 0
  · rw [if_neg (by omega)] at hdecode
    rw [if_pos hzero]
    refine .inl ⟨_, inp₂, rfl, ?_⟩
    rw [hdecode, hs₂, hzero, List.take_zero, Nat.add_zero]
  rw [if_neg hzero]
  by_cases hbody : (stream again inp₂).length < bl
  · rw [if_pos (by omega)] at hdecode
    rw [readExact_none again hbody]
    exact .inr ⟨rfl, hdecode⟩
  · obtain ⟨inp₃, hread₃, hs₃⟩ := readExact_some again (Nat.le_of_not_lt hbody)
    rw [if_neg (by omega)] at hdecode
    rw [hread₃]
    refine .inl ⟨_, inp₃, rfl, ?_⟩
    rw [hdecode, hs₃, hs₂, List.drop_drop]

theorem readParts_reads (again : Errno → Bool) : Reads again encode Legal (readParts again) := by
  intro inp
  rcases readParts_decode again inp with ⟨f, rest, hread, hdecode⟩ | ⟨hread, hdecode⟩
  · obtain ⟨hlegal, hs⟩ := decode_exact hdecode
    exact .inl ⟨f, rest, hread, hlegal, hs⟩
  · exact .inr ⟨hread, decode_none hdecode⟩

theorem readFrame_eq (inp : List (Arrival Errno)) :
    (readFrame inp).frame? = readParts retried inp := by
  unfold readFrame readParts readAll
  cases readExact retried 8 inp with
  | none => rfl
  | some r =>
      obtain ⟨pre, inp⟩ := r
      simp only
      by_cases hlegal : rdU32 pre = 0 ∨ rdU32 pre > HDR_CAP ∨ rdU32 (pre.drop 4) > BODY_CAP
      · rw [if_pos hlegal, if_pos hlegal]
        rfl
      rw [if_neg hlegal, if_neg hlegal]
      cases readExact retried (rdU32 pre) inp with
      | none => rfl
      | some r =>
          obtain ⟨hdr, inp⟩ := r
          simp only
          by_cases hzero : rdU32 (pre.drop 4) = 0
          · rw [if_pos hzero, if_pos hzero]
            rfl
          · rw [if_neg hzero, if_neg hzero]
            cases readExact retried (rdU32 (pre.drop 4)) inp <;> rfl

theorem gdNumber_eq (pre : Bytes) : gdNumber pre = rdU32 pre := by
  have hshift : ∀ n b : Nat, b < 2 ^ 8 → n <<< 8 ||| b = b + 2 ^ 8 * n := by
    intro n b hb
    rw [Nat.or_comm, or_shiftLeft n hb]
  have hbyte : ∀ i, (pre.getD i 0).toNat < 2 ^ 8 := fun i => (pre.getD i 0).toNat_lt
  rw [rdU32_eq]
  simp only [gdNumber, List.foldl_cons, List.foldl_nil, hshift _ _ (hbyte _)]
  omega

theorem hdrCap_eq : 64 <<< 10 = HDR_CAP := rfl

theorem bodyCap_eq : 16 <<< 20 = BODY_CAP := rfl

theorem gdFrame_eq (inp : List (Arrival Errno)) :
    (gdFrame inp).toOption = readParts waited inp := by
  unfold gdFrame readParts gdRead
  cases readExact waited 8 inp with
  | none => rfl
  | some r =>
      obtain ⟨pre, inp⟩ := r
      simp only [gdNumber_eq, hdrCap_eq, bodyCap_eq]
      by_cases hlegal : rdU32 pre = 0 ∨ rdU32 pre > HDR_CAP ∨ rdU32 (pre.drop 4) > BODY_CAP
      · rw [if_pos hlegal, if_pos hlegal]
        rfl
      rw [if_neg hlegal, if_neg hlegal]
      cases readExact waited (rdU32 pre) inp with
      | none => rfl
      | some r =>
          obtain ⟨hdr, inp⟩ := r
          simp only
          by_cases hzero : rdU32 (pre.drop 4) = 0
          · rw [if_pos hzero, if_pos hzero]
            rfl
          · rw [if_neg hzero, if_neg hzero]
            cases readExact waited (rdU32 (pre.drop 4)) inp <;> rfl

/-- The frames that the daemon reads off a connection. -/
def framesRead (inp : List (Arrival Errno)) : List RawFrame :=
  readItems (fun inp => (readFrame inp).frame?) ((stream retried inp).length + 1) inp

/-- The frames that the client reads off a connection. -/
def framesReceived (inp : List (Arrival Errno)) : List RawFrame :=
  readItems (fun inp => (gdFrame inp).toOption) ((stream waited inp).length + 1) inp

theorem framesRead_splits (inp : List (Arrival Errno)) :
    ∃ rest, Splits encode Legal (stream retried inp) (framesRead inp) rest := by
  unfold framesRead
  rw [funext readFrame_eq]
  exact readItems_splits (readParts_reads retried) (fun f _ => encode_ne_nil f) (Nat.lt_succ_self _)

theorem framesReceived_splits (inp : List (Arrival Errno)) :
    ∃ rest, Splits encode Legal (stream waited inp) (framesReceived inp) rest := by
  unfold framesReceived
  rw [funext gdFrame_eq]
  exact readItems_splits (readParts_reads waited) (fun f _ => encode_ne_nil f) (Nat.lt_succ_self _)

/-! ## The writers -/

theorem writeAll_writes : Writes id (fun _ => True) Port.out (fun c => c.broken = false) writeAll := by
  intro c buf hc _
  obtain ⟨rest, hbuf, hok⟩ := writeExact_out retried true c.calls buf
  have hc : c.broken = false := hc
  unfold writeAll
  rw [hc, if_neg Bool.false_ne_true]
  generalize writeExact retried true buf c.calls = r at hbuf hok
  obtain ⟨done, calls, ok⟩ := r
  exact ⟨done, rest, rfl, hbuf, hok, fun h => congrArg (! ·) h⟩

theorem gdWrite_writes : Writes id (fun _ => True) Prod.fst (fun _ => True) gdWrite := by
  intro g buf _ _
  obtain ⟨rest, hbuf, hok⟩ := writeExact_out waited false g.2 buf
  exact ⟨_, rest, rfl, hbuf, hok, fun _ => trivial⟩

/-- The pieces in which both writers write a frame. -/
def pieces (f : RawFrame) : List Bytes :=
  f.pre :: f.hdr :: if f.body = [] then [] else [f.body]

theorem pieces_flatten (f : RawFrame) : (pieces f).flatten = encode f := by
  unfold pieces encode
  split
  · next h => rw [h]; simp
  · simp

theorem writeFrame_eq (c : Port) (f : RawFrame) :
    writeFrame c f = writePieces writeAll (pieces f) c := by
  unfold writeFrame pieces
  rw [writePieces]
  rcases writeAll c f.pre with ⟨c, ok⟩
  cases ok with
  | false => rfl
  | true =>
      simp only
      rw [writePieces]
      rcases writeAll c f.hdr with ⟨c, ok⟩
      cases ok with
      | false => rfl
      | true =>
          simp only
          split
          · rfl
          · rw [writePieces]
            rcases writeAll c f.body with ⟨c, ok⟩
            cases ok <;> rfl

theorem gdLen_eq (n : Nat) : gdLen n = wrU32 n := rfl

/-- A header without a NUL is its C string. -/
theorem cstr_eq {hdr : Bytes} (h : (0 : UInt8) ∉ hdr) : cstr hdr = hdr := text_eq h

theorem gdSend_eq (g : Sink) {f : RawFrame} (hf : Legal f) (hnul : (0 : UInt8) ∉ f.hdr) :
    gdSend g f.hdr f.body = writePieces gdWrite (pieces f) g := by
  have hpos := hf.hdr_pos
  have hcap := hf.hdr_cap
  have hbody := hf.body_cap
  unfold gdSend pieces
  simp only [cstr_eq hnul, hdrCap_eq, bodyCap_eq, gdLen_eq, List.take_length]
  rw [if_neg (by omega), writePieces]
  have hpre : wrU32 f.hdr.length ++ wrU32 f.body.length = f.pre := rfl
  rw [hpre]
  rcases gdWrite g f.pre with ⟨g, ok⟩
  cases ok with
  | false => rfl
  | true =>
      simp only
      rw [writePieces]
      rcases gdWrite g f.hdr with ⟨g, ok⟩
      cases ok with
      | false => rfl
      | true =>
          simp only
          split
          · rfl
          · rw [writePieces]
            rcases gdWrite g f.body with ⟨g, ok⟩
            cases ok <;> rfl

theorem writeFrame_writes : Writes encode Legal Port.out (fun c => c.broken = false) writeFrame := by
  intro c f hc _
  obtain ⟨done, rest, hout, heq, hok, hgood⟩ := writePieces_out writeAll_writes (pieces f) hc
  rw [pieces_flatten] at heq
  rw [writeFrame_eq]
  exact ⟨done, rest, hout, heq, hok, hgood⟩

/-- What a client is given to send: a frame whose header is a C string. -/
structure Sendable (f : RawFrame) : Prop extends Legal f where
  nul : (0 : UInt8) ∉ f.hdr

def gdSendFrame (g : Sink) (f : RawFrame) : Sink × Bool := gdSend g f.hdr f.body

theorem gdSend_writes : Writes encode Sendable Prod.fst (fun _ => True) gdSendFrame := by
  intro g f _ hf
  obtain ⟨done, rest, hout, heq, hok, _⟩ := writePieces_out gdWrite_writes (pieces f) trivial
  rw [pieces_flatten] at heq
  rw [gdSendFrame, gdSend_eq g hf.toLegal hf.nul]
  exact ⟨done, rest, hout, heq, hok, fun _ => trivial⟩

/-- No call of the daemon fails. -/
def PortFlows (c : Port) : Prop := c.broken = false ∧ Flows retried true c.calls

/-- No call of the client fails. -/
def SinkFlows (g : Sink) : Prop := Flows waited false g.2

theorem writeFrame_flows (c : Port) (f : RawFrame) (hc : PortFlows c) :
    (writeFrame c f).2 = true ∧ PortFlows (writeFrame c f).1 := by
  rw [writeFrame_eq]
  refine writePieces_all (fun (c : Port) buf (hc : PortFlows c) => ?_) (pieces f) hc
  obtain ⟨hok, hflows⟩ := writeExact_flows retried hc.2 buf
  unfold writeAll
  rw [hc.1, if_neg Bool.false_ne_true]
  generalize writeExact retried true buf c.calls = r at hok hflows
  obtain ⟨done, calls, ok⟩ := r
  exact ⟨hok, congrArg (! ·) hok, hflows⟩

theorem gdSend_flows (g : Sink) {f : RawFrame} (hf : Sendable f) (hg : SinkFlows g) :
    (gdSendFrame g f).2 = true ∧ SinkFlows (gdSendFrame g f).1 := by
  rw [gdSendFrame, gdSend_eq g hf.toLegal hf.nul]
  exact writePieces_all (fun (g : Sink) buf (hg : SinkFlows g) => writeExact_flows waited hg buf)
    (pieces f) hg

/-! ## One connection -/

/-- What a connection makes of the frames that were read, and of the bytes `rest`
behind them: a prefix that is not whole is the end. -/
def served {σ : Type} (handle : σ → Bytes → Bytes → σ × Bool) (malformed : σ → σ) (rest : Bytes) :
    List RawFrame → σ → σ
  | [], s => if rest.length < 8 then s else malformed s
  | f :: fs, s =>
      match handle s (cstr f.hdr) f.body with
      | (s, true) => served handle malformed rest fs s
      | (s, false) => s

theorem readFrame_closed {inp : List (Arrival Errno)} (h : (stream retried inp).length < 8) :
    readFrame inp = .closed := by
  unfold readFrame readAll
  rw [readExact_none retried h]

theorem readFrame_malformed {inp : List (Arrival Errno)} (h : ¬ (stream retried inp).length < 8)
    (hno : (readFrame inp).frame? = none) : readFrame inp = .malformed := by
  cases hgot : readFrame inp with
  | frame f rest =>
      rw [hgot] at hno
      cases hno
  | malformed => rfl
  | closed =>
      obtain ⟨rest, hread, _⟩ := readExact_some retried (Nat.le_of_not_lt h)
      unfold readFrame readAll at hgot
      rw [hread] at hgot
      simp only at hgot
      split at hgot
      · cases hgot
      · split at hgot
        · cases hgot
        · split at hgot
          · cases hgot
          · split at hgot <;> cases hgot

/-- The daemon interprets the frames that were read, in order, and nothing else. -/
theorem serveConn_served {σ : Type} (handle : σ → Bytes → Bytes → σ × Bool) (malformed : σ → σ) :
    ∀ {fuel : Nat} {inp : List (Arrival Errno)} {rest : Bytes} (s : σ),
      (stream retried inp).length < fuel →
      Splits encode Legal (stream retried inp)
        (readItems (fun inp => (readFrame inp).frame?) fuel inp) rest →
      serveConn handle malformed fuel s inp = served handle malformed rest
        (readItems (fun inp => (readFrame inp).frame?) fuel inp) s := by
  intro fuel
  induction fuel with
  | zero => exact fun _ h => absurd h (Nat.not_lt_zero _)
  | succ fuel ih =>
      intro inp rest s hlt hsplit
      rw [serveConn]
      rw [readItems] at hsplit ⊢
      rcases readParts_decode retried inp with ⟨f, inp', hread, hdecode⟩ | ⟨hread, _⟩
      · rw [← readFrame_eq] at hread
        obtain ⟨_, hs⟩ := decode_exact hdecode
        rw [hread] at hsplit ⊢
        have hgot : readFrame inp = .frame f inp' := by
          cases hgot : readFrame inp with
          | frame g inp₀ =>
              rw [hgot] at hread
              injection hread with hread
              cases hread
              rfl
          | closed | malformed =>
              rw [hgot] at hread
              cases hread
        rw [hgot]
        simp only at hsplit ⊢
        rw [served]
        cases handle s (cstr f.hdr) f.body with
        | mk s' ok =>
            cases ok with
            | false => rfl
            | true =>
                rw [hs, List.length_append, encode_length] at hlt
                refine ih s' (by omega) ⟨?_, ?_, hsplit.ends⟩
                · have heq := hsplit.eq
                  rw [hs, List.flatMap_cons, List.append_assoc] at heq
                  exact List.append_cancel_left heq
                · exact fun g hg => hsplit.legal g (List.mem_cons_of_mem _ hg)
      · rw [← readFrame_eq] at hread
        rw [hread] at hsplit ⊢
        have hrest : stream retried inp = rest := hsplit.eq
        rw [served, ← hrest]
        by_cases h8 : (stream retried inp).length < 8
        · rw [if_pos h8, readFrame_closed h8]
        · rw [if_neg h8, readFrame_malformed h8 hread]

/-- The frames that the daemon reads of what a client wrote. -/
theorem framesRead_gdSend {fs : List RawFrame} {calls : List (Departure Errno)}
    {inp : List (Arrival Errno)} (hfs : ∀ f ∈ fs, Sendable f)
    (hs : stream retried inp = (writeItems gdSendFrame fs ([], calls)).1.1) :
    framesRead inp = fs.take (writeItems gdSendFrame fs ([], calls)).2 ∧
      (Flows waited false calls → framesRead inp = fs) := by
  obtain ⟨sent, rest, hout, hsent⟩ := writeItems_splits gdSend_writes (fun _ h => h.toLegal)
    frames_prefixFree (fun f _ => encode_ne_nil f) (s := ([], calls)) trivial hfs
  obtain ⟨rest', hread⟩ := framesRead_splits inp
  rw [hs, hout, List.nil_append] at hread
  have heq := (hread.unique frames_prefixFree hsent).1
  refine ⟨heq, fun hflows => ?_⟩
  have hall := writeItems_all (fun g f hg (hf : Sendable f) => gdSend_flows g hf hg)
    (s := ([], calls)) hflows hfs
  rw [heq, hall, List.take_length]

/-! ## Main result -/

/-- Frames come through, however their bytes are cut into calls: what the client
reads are the frames that the daemon wrote, and the other way round. From any
bytes a reader takes the legal frames that they begin with, and what is behind
them is not interpreted. -/
theorem frames_come_through :
    (∀ fs calls inp, (∀ f ∈ fs, Legal f) →
      stream waited inp = (writeItems writeFrame fs ⟨[], calls, false⟩).1.out →
      framesReceived inp = fs.take (writeItems writeFrame fs ⟨[], calls, false⟩).2 ∧
        (Flows retried true calls → framesReceived inp = fs)) ∧
    (∀ fs calls inp, (∀ f ∈ fs, Sendable f) →
      stream retried inp = (writeItems gdSendFrame fs ([], calls)).1.1 →
      framesRead inp = fs.take (writeItems gdSendFrame fs ([], calls)).2 ∧
        (Flows waited false calls → framesRead inp = fs)) ∧
    (∀ inp, ∃ rest, Splits encode Legal (stream waited inp) (framesReceived inp) rest) ∧
    (∀ inp, ∃ rest, Splits encode Legal (stream retried inp) (framesRead inp) rest ∧
      ∀ (σ : Type) (handle : σ → Bytes → Bytes → σ × Bool) (malformed : σ → σ) (s : σ),
        serveConn handle malformed ((stream retried inp).length + 1) s inp =
          served handle malformed rest (framesRead inp) s) := by
  refine ⟨fun fs calls inp hlegal hs => ?_, fun fs calls inp hlegal hs => ?_,
    framesReceived_splits, fun inp => ?_⟩
  · obtain ⟨sent, rest, hout, hsent⟩ := writeItems_splits writeFrame_writes (fun _ h => h)
      frames_prefixFree (fun f _ => encode_ne_nil f) (s := ⟨[], calls, false⟩) rfl hlegal
    obtain ⟨rest', hread⟩ := framesReceived_splits inp
    rw [hs, hout, List.nil_append] at hread
    have heq := (hread.unique frames_prefixFree hsent).1
    refine ⟨heq, fun hflows => ?_⟩
    have hall := writeItems_all (fun c f hc (_ : Legal f) => writeFrame_flows c f hc)
      (s := ⟨[], calls, false⟩) ⟨rfl, hflows⟩ hlegal
    rw [heq, hall, List.take_length]
  · exact framesRead_gdSend hlegal hs
  · obtain ⟨rest, hsplit⟩ := framesRead_splits inp
    exact ⟨rest, hsplit, fun σ handle malformed s =>
      serveConn_served handle malformed s (Nat.lt_succ_self _) hsplit⟩

/-- A frame that is written in three calls, one of which is interrupted, and read
in four. -/
theorem frames_come_through_once :
    framesReceived [.bytes [2, 0, 0], .error .eintr, .bytes [0, 1, 0, 0, 0, 123], .error .again,
      .bytes [125, 7]] = [⟨[123, 125], [7]⟩] := by
  refine (frames_come_through.1 [⟨[123, 125], [7]⟩] [.took 3, .error .eintr, .took 1] _
    (fun f hf => ?_) (by decide)).2 (fun c hc => ?_)
  · rw [List.mem_singleton] at hf
    subst hf
    exact ⟨by decide, by decide, by decide⟩
  · simp only [List.mem_cons, List.not_mem_nil, or_false] at hc
    rcases hc with rfl | rfl | rfl
    · exact .inl ⟨3, rfl, .inl rfl⟩
    · exact .inr ⟨.eintr, rfl, rfl⟩
    · exact .inl ⟨1, rfl, .inl rfl⟩

end GeistServe.Proofs
