import GeistServe.App.Request

/-!
# A request in pieces

The head of a request is searched while it arrives, and its lines are cut off one by one. What
comes out is what the whole stream says at once (`readRequest_whole`): the first blank line is
the same in every piece that has it, only the lines in front of it are read (`readHead_text`),
and the body is the bytes behind it, whether they came with the head or later.
-/

namespace GeistServe.Http

open GeistServe.Lib GeistServe.Geistd

/-! ## The head -/

theorem cstr_append (got more : Bytes) : ∃ t, cstr (got ++ more) = cstr got ++ t := by
  rw [cstr, cstr, List.takeWhile_append]
  split
  · next hall =>
      rw [(List.takeWhile_prefix _).eq_of_length hall]
      exact ⟨_, rfl⟩
  · exact ⟨[], (List.append_nil _).symm⟩

theorem headEnd_stays (got : Bytes) (stop : Nat) (more : Bytes) (h : headEnd got = some stop) :
    headEnd (got ++ more) = some stop := by
  obtain ⟨t, ht⟩ := cstr_append got more
  rw [headEnd, ht]
  exact find_append h t

/-- A text up to its blank line. -/
def headText (first : CStr) (lines : List CStr) : CStr :=
  first ++ [13, 10] ++ joined 13 10 lines ++ [13, 10]

/-- Lines that the blank line does not cut. -/
structure Whole (first : CStr) (lines : List CStr) : Prop where
  first : Unbroken 13 10 first
  lines : ∀ l ∈ lines, Unbroken 13 10 l ∧ l ≠ []

theorem crlf_differ : (13 : UInt8) ≠ 10 := by decide

theorem headerLines_joined {lines : List CStr} (hlines : ∀ l ∈ lines, Unbroken 13 10 l ∧ l ≠ [])
    (rest : CStr) : ∀ {fuel : Nat} {h : Header}, (joined 13 10 lines).length < fuel →
      headerLines (rest.length + 4) fuel (joined 13 10 lines ++ [13, 10] ++ rest) h =
        lines.foldlM headerLine h := by
  induction lines with
  | nil =>
      intro fuel h hfuel
      cases fuel with
      | zero => exact absurd hfuel (Nat.not_lt_zero _)
      | succ fuel =>
          have hend : (joined 13 10 [] ++ [13, 10] ++ rest : CStr).length ≤ rest.length + 4 := by
            show rest.length + 2 ≤ _
            omega
          rw [headerLines, if_pos hend]
          rfl
  | cons l lines ih =>
      intro fuel h hfuel
      obtain ⟨hl, hne⟩ := hlines l List.mem_cons_self
      have hpos := List.length_pos_iff.mpr hne
      cases fuel with
      | zero => exact absurd hfuel (Nat.not_lt_zero _)
      | succ fuel =>
          have hassoc : joined 13 10 (l :: lines) ++ [13, 10] ++ rest =
              l ++ [13, 10] ++ (joined 13 10 lines ++ [13, 10] ++ rest) := by
            rw [joined]
            simp only [List.append_assoc]
          have hlen : ¬ (joined 13 10 (l :: lines) ++ [13, 10] ++ rest).length ≤
              rest.length + 4 := by
            rw [hassoc]
            simp only [List.length_append, List.length_cons, List.length_nil]
            omega
          have hfuel' : (joined 13 10 lines).length < fuel := by
            rw [joined] at hfuel
            simp only [List.length_append, List.length_cons, List.length_nil] at hfuel
            omega
          have hdrop : (l ++ [13, 10] ++ (joined 13 10 lines ++ [13, 10] ++ rest)).drop
              (l.length + 2) = joined 13 10 lines ++ [13, 10] ++ rest := by
            exact List.drop_left' (by rw [List.length_append]; rfl)
          rw [headerLines, if_neg hlen, hassoc, find_line crlf_differ hl]
          dsimp only
          rw [List.append_assoc l, List.take_left, ← List.append_assoc l, hdrop, List.foldlM_cons]
          cases hline : headerLine h l with
          | error e => rfl
          | ok h' => exact ih (fun x hx => hlines x (List.mem_cons_of_mem l hx)) hfuel'

theorem readHead_text {first : CStr} {lines : List CStr} (hw : Whole first lines) (rest : CStr) :
    readHead (headText first lines ++ rest) (first.length + (joined 13 10 lines).length) =
      requestLine first (lines.foldlM headerLine {}) := by
  have hassoc : headText first lines ++ rest =
      first ++ [13, 10] ++ (joined 13 10 lines ++ [13, 10] ++ rest) := by
    rw [headText]
    simp only [List.append_assoc]
  have hdrop : (first ++ [13, 10] ++ (joined 13 10 lines ++ [13, 10] ++ rest)).drop
      (first.length + 2) = joined 13 10 lines ++ [13, 10] ++ rest :=
    List.drop_left' (by rw [List.length_append]; rfl)
  have hstop : (headText first lines ++ rest).length -
      (first.length + (joined 13 10 lines).length) = rest.length + 4 := by
    rw [headText]
    simp only [List.length_append, List.length_cons, List.length_nil]
    omega
  have hfuel : (joined 13 10 lines).length < (joined 13 10 lines ++ [13, 10] ++ rest).length := by
    simp only [List.length_append, List.length_cons, List.length_nil]
    omega
  rw [readHead, hstop, hassoc, find_line crlf_differ hw.first]
  dsimp only
  rw [List.append_assoc first, List.take_left, ← List.append_assoc first, hdrop,
    headerLines_joined hw.lines rest hfuel]

theorem headEnd_text {got : Bytes} {stop : Nat} (h : headEnd got = some stop) :
    ∃ first lines rest, cstr got = headText first lines ++ rest ∧ Whole first lines ∧
      stop = first.length + (joined 13 10 lines).length := by
  obtain ⟨first, lines, rest, hcstr, hfirst, hlines⟩ := find_blank_lines crlf_differ h
  refine ⟨first, lines, rest, hcstr, ⟨hfirst, hlines⟩, ?_⟩
  rw [headEnd, hcstr, find_blank crlf_differ hfirst hlines] at h
  exact (Option.some.inj h).symm

theorem headText_length (first : CStr) (lines : List CStr) :
    (headText first lines).length = first.length + (joined 13 10 lines).length + 4 := by
  rw [headText]
  simp only [List.length_append, List.length_cons, List.length_nil]
  omega

/-- Only the text up to the blank line counts. -/
theorem readHead_take {got : Bytes} {stop : Nat} (h : headEnd got = some stop) :
    readHead (cstr got) stop = readHead ((cstr got).take (stop + 4)) stop := by
  obtain ⟨first, lines, rest, hcstr, hw, rfl⟩ := headEnd_text h
  have htake := readHead_text hw []
  rw [List.append_nil] at htake
  rw [hcstr, List.take_left' (headText_length first lines), readHead_text hw rest, htake]

/-! ## Pieces -/

/-- The body, in a stream that is there at once. -/
def receiveAtOnce (rest : Bytes) (gone : Gone) (length : Nat) : Except Nat Bytes :=
  if length ≤ rest.length then .ok (rest.take length) else .error (missing (some gone))

/-- `read_request`, of a stream that is there at once. -/
def readAtOnce (unixSocket : Bool) (stream : Bytes) (gone : Gone) : Except Nat Request :=
  match headEnd (stream.take HEADER_CAP) with
  | none => .error (missing (if HEADER_CAP ≤ stream.length then none else some gone))
  | some stop =>
      (readHead ((cstr stream).take (stop + 4)) stop).bind fun head =>
        readBody unixSocket head (receiveAtOnce (stream.drop (stop + 4)) gone)

theorem cstr_take {got more : Bytes} {stop : Nat} (h : headEnd got = some stop) :
    (cstr (got ++ more)).take (stop + 4) = (cstr got).take (stop + 4) := by
  obtain ⟨first, lines, rest, hcstr, -, rfl⟩ := headEnd_text h
  obtain ⟨t, ht⟩ := cstr_append got more
  have hlen := headText_length first lines
  rw [ht, hcstr, List.append_assoc, List.take_left' hlen, List.take_left' hlen]

theorem headEnd_length {got : Bytes} {stop : Nat} (h : headEnd got = some stop) :
    stop + 4 ≤ got.length := by
  obtain ⟨first, lines, rest, hcstr, -, rfl⟩ := headEnd_text h
  have hle : (cstr got).length ≤ got.length := (List.takeWhile_prefix _).length_le
  rw [hcstr, List.length_append, headText_length] at hle
  omega

/-- The bytes that came early and the bytes that are still to come. -/
theorem readFull_body (length : Nat) (early : Bytes) {fuel : Nat}
    {peer : Peer UInt8 (Option Gone)} (hfuel : peer.stream.length < fuel) :
    if length ≤ (early ++ peer.stream).length then
      ∃ q, readFull length fuel (early.take length) peer =
        .ok ((early ++ peer.stream).take length, q)
    else readFull length fuel (early.take length) peer = .error peer.gone := by
  have hearly : (early.take length).length ≤ length := by
    rw [List.length_take]
    exact Nat.min_le_left _ _
  have hread := readFull_eq hfuel hearly
  have htake : (early.take length ++ peer.stream).take length =
      (early ++ peer.stream).take length := by
    rw [List.take_append, List.take_append, List.take_take, Nat.min_self, List.length_take]
    congr 2
    omega
  have hlength : length ≤ (early.take length ++ peer.stream).length ↔
      length ≤ (early ++ peer.stream).length := by
    rw [List.length_append, List.length_append, List.length_take]
    omega
  rw [htake] at hread
  by_cases h : length ≤ (early ++ peer.stream).length
  · rw [if_pos (hlength.mpr h)] at hread
    rw [if_pos h]
    exact hread
  · rw [if_neg (fun hl => h (hlength.mp hl))] at hread
    rw [if_neg h]
    exact hread

theorem receive_body {got : Bytes} {stop : Nat} {peer : Peer UInt8 (Option Gone)}
    {stream : Bytes} {gone : Gone} (hstop : stop + 4 ≤ got.length)
    (hkeep : got ++ peer.stream = stream) (hgone : peer.gone = some gone) (length : Nat) :
    received (readFull length (peer.stream.length + 1) ((got.drop (stop + 4)).take length) peer) =
      receiveAtOnce (stream.drop (stop + 4)) gone length := by
  have hrest : got.drop (stop + 4) ++ peer.stream = stream.drop (stop + 4) := by
    rw [← hkeep, List.drop_append_of_le_length hstop]
  have hread := readFull_body length (got.drop (stop + 4))
    (Nat.lt_succ_self peer.stream.length)
  rw [hrest, hgone] at hread
  rw [receiveAtOnce]
  split at hread
  · next hle =>
      obtain ⟨q, hq⟩ := hread
      rw [hq, if_pos hle]
      rfl
  · next hnot =>
      rw [hread, if_neg hnot]
      rfl

theorem headEnd_nil : headEnd [] = none := by decide

theorem readRequest_whole (unixSocket : Bool) (peer : Peer UInt8 Gone) :
    readRequest unixSocket peer = readAtOnce unixSocket peer.stream peer.gone := by
  rw [readRequest, readAtOnce]
  cases hend : headEnd (peer.stream.take HEADER_CAP) with
  | none =>
      have hmiss : readUntil headEnd HEADER_CAP none (peer.stream.length + 1) []
          ⟨peer.stream, peer.cuts, some peer.gone⟩ = .error _ :=
        readUntil_missing headEnd_stays (Nat.lt_succ_self _) (Nat.zero_le _) headEnd_nil hend
      rw [hmiss]
      rfl
  | some stop =>
      obtain ⟨got, q, hread, hstop, hkeep, hgone⟩ := readUntil_found
        (p := ⟨peer.stream, peer.cuts, some peer.gone⟩) headEnd_stays (Nat.lt_succ_self _)
        (Nat.zero_le _) headEnd_nil hend
      rw [List.nil_append] at hkeep
      have hcut : readHead (cstr got) stop = readHead ((cstr peer.stream).take (stop + 4)) stop := by
        rw [readHead_take hstop, ← hkeep, cstr_take hstop]
      rw [hread]
      dsimp only
      rw [hcut]
      cases readHead ((cstr peer.stream).take (stop + 4)) stop with
      | error e => rfl
      | ok head =>
          exact congrArg (readBody unixSocket head)
            (funext (receive_body (headEnd_length hstop) hkeep hgone))

/-- How the bytes arrive does not matter. -/
theorem pieces_unseen (token : Token) (unixSocket : Bool) (stream : Bytes) (gone : Gone)
    (cuts cuts' : List Nat) :
    readRequest unixSocket ⟨stream, cuts, gone⟩ = readRequest unixSocket ⟨stream, cuts', gone⟩ ∧
    handle token unixSocket ⟨stream, cuts, gone⟩ =
      handle token unixSocket ⟨stream, cuts', gone⟩ := by
  have hread : readRequest unixSocket ⟨stream, cuts, gone⟩ =
      readRequest unixSocket ⟨stream, cuts', gone⟩ := by
    rw [readRequest_whole, readRequest_whole]
  exact ⟨hread, by rw [handle, handle, hread]⟩

end GeistServe.Http
