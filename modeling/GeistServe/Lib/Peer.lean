import Mathlib.Data.List.Basic

/-!
# A stream that arrives in pieces

A peer sends a stream, and each receive gets some of it: at least one symbol, at most what was
asked for, and how much in between is the connection's choice (`cuts`). When all is received,
`gone` is how receiving ends.

A reader that stops as soon as it finds something in what it has, and one that reads a known
length, see the same whatever the cuts are, as long as what is found stays found when more
comes (`readUntil_spec`, `readFull_spec`).
-/

namespace GeistServe.Lib

variable {α β ε : Type}

structure Peer (α ε : Type) where
  stream : List α
  cuts : List Nat
  gone : ε

/-- One receive into `size` free places. -/
def Peer.recv (p : Peer α ε) (size : Nat) : Except ε (List α × Peer α ε) :=
  if p.stream.isEmpty then .error p.gone
  else
    let n := max 1 (min (p.cuts.headD size) size)
    .ok (p.stream.take n, { p with stream := p.stream.drop n, cuts := p.cuts.tail })

/-- Receives behind `got`, until something is found or `cap` symbols are there. -/
def readUntil (found : List α → Option β) (cap : Nat) (full : ε) :
    Nat → List α → Peer α ε → Except ε (β × List α × Peer α ε)
  | 0, _, p => .error p.gone
  | fuel + 1, got, p =>
      if got.length = cap then .error full
      else match p.recv (cap - got.length) with
        | .error e => .error e
        | .ok (piece, p) =>
            match found (got ++ piece) with
            | some x => .ok (x, got ++ piece, p)
            | none => readUntil found cap full fuel (got ++ piece) p

/-- Receives behind `got`, until `length` symbols are there. -/
def readFull (length : Nat) : Nat → List α → Peer α ε → Except ε (List α × Peer α ε)
  | 0, got, p => if got.length < length then .error p.gone else .ok (got, p)
  | fuel + 1, got, p =>
      if got.length < length then
        match p.recv (length - got.length) with
        | .error e => .error e
        | .ok (piece, p) => readFull length fuel (got ++ piece) p
      else .ok (got, p)

/-! ## What one receive does -/

variable {p : Peer α ε}

theorem recv_gone {size : Nat} (h : p.stream = []) : p.recv size = .error p.gone := by
  rw [Peer.recv, h]
  rfl

/-- A receive moves at least one symbol, and no more than were asked for. -/
theorem recv_some {size : Nat} (h : p.stream ≠ []) (hsize : 0 < size) :
    ∃ piece q, p.recv size = .ok (piece, q) ∧ piece ++ q.stream = p.stream ∧
      0 < piece.length ∧ piece.length ≤ size ∧ q.gone = p.gone := by
  have hlen := List.length_pos_iff.mpr h
  refine ⟨_, _, if_neg (fun he => h (List.isEmpty_iff.mp he)), List.take_append_drop _ _, ?_, ?_,
    rfl⟩
  · rw [List.length_take]
    omega
  · rw [List.length_take]
    omega

theorem recv_cases (p : Peer α ε) {size : Nat} (hsize : 0 < size) :
    (p.stream = [] ∧ p.recv size = .error p.gone) ∨
    ∃ piece q, p.recv size = .ok (piece, q) ∧ piece ++ q.stream = p.stream ∧
      q.stream.length < p.stream.length ∧ piece.length ≤ size ∧ q.gone = p.gone := by
  by_cases h : p.stream = []
  · exact .inl ⟨h, recv_gone h⟩
  · obtain ⟨piece, q, hrecv, hsplit, hpos, hle, hgone⟩ := recv_some h hsize
    refine .inr ⟨piece, q, hrecv, hsplit, ?_, hle, hgone⟩
    rw [← hsplit, List.length_append]
    omega

/-! ## Reading until -/

section
variable {found : List α → Option β} {cap : Nat} {full : ε}

theorem readUntil_sound {fuel : Nat} {got : List α} {x : β} {got' : List α} {q : Peer α ε}
    (h : readUntil found cap full fuel got p = .ok (x, got', q)) (hgot : got.length ≤ cap) :
    found got' = some x ∧ got' ++ q.stream = got ++ p.stream ∧ got'.length ≤ cap ∧
      q.gone = p.gone := by
  induction fuel generalizing got p with
  | zero => cases h
  | succ fuel ih =>
      rw [readUntil] at h
      split at h
      · cases h
      · next hcap =>
          obtain ⟨-, hrecv⟩ | ⟨piece, r, hrecv, hsplit, -, hle, hgone⟩ :=
            recv_cases p (show 0 < cap - got.length by omega)
          · rw [hrecv] at h
            cases h
          · rw [hrecv] at h
            have hroom : (got ++ piece).length ≤ cap := by
              rw [List.length_append]
              omega
            have hwhole : got ++ piece ++ r.stream = got ++ p.stream := by
              rw [List.append_assoc, hsplit]
            dsimp only at h
            split at h
            · next y hfound =>
                cases h
                exact ⟨hfound, hwhole, hroom, hgone⟩
            · obtain ⟨hfound, hkeep, hlen, hq⟩ := ih h hroom
              exact ⟨hfound, hkeep.trans hwhole, hlen, hq.trans hgone⟩

theorem readUntil_fails {fuel : Nat} {got : List α} {e : ε}
    (h : readUntil found cap full fuel got p = .error e) (hfuel : p.stream.length < fuel)
    (hgot : got.length ≤ cap) (hnone : found got = none) :
    found ((got ++ p.stream).take cap) = none ∧
      e = if cap ≤ (got ++ p.stream).length then full else p.gone := by
  induction fuel generalizing got p with
  | zero => exact absurd hfuel (Nat.not_lt_zero _)
  | succ fuel ih =>
      rw [readUntil] at h
      split at h
      · next hcap =>
          cases h
          rw [List.take_append_of_le_length (Nat.le_of_eq hcap.symm),
            List.take_of_length_le (Nat.le_of_eq hcap), List.length_append, if_pos (by omega)]
          exact ⟨hnone, rfl⟩
      · next hcap =>
          obtain ⟨hend, hrecv⟩ | ⟨piece, r, hrecv, hsplit, hless, hle, hgone⟩ :=
            recv_cases p (show 0 < cap - got.length by omega)
          · rw [hrecv] at h
            cases h
            rw [hend, List.append_nil, List.take_of_length_le hgot, if_neg (by omega)]
            exact ⟨hnone, rfl⟩
          · rw [hrecv] at h
            dsimp only at h
            split at h
            · cases h
            · next hfound =>
                have hroom : (got ++ piece).length ≤ cap := by
                  rw [List.length_append]
                  omega
                have hnext := ih h (by omega) hroom hfound
                rw [List.append_assoc, hsplit, hgone] at hnext
                exact hnext

/-- What is found in the first `cap` symbols is found, and nothing is lost by it. -/
theorem readUntil_found
    (hstays : ∀ got x more, found got = some x → found (got ++ more) = some x)
    {fuel : Nat} {got : List α} {x : β} (hfuel : p.stream.length < fuel)
    (hgot : got.length ≤ cap) (hnone : found got = none)
    (hfound : found ((got ++ p.stream).take cap) = some x) :
    ∃ got' q, readUntil found cap full fuel got p = .ok (x, got', q) ∧ found got' = some x ∧
      got' ++ q.stream = got ++ p.stream ∧ q.gone = p.gone := by
  cases h : readUntil found cap full fuel got p with
  | error e =>
      have hmiss := (readUntil_fails h hfuel hgot hnone).1
      rw [hmiss] at hfound
      cases hfound
  | ok r =>
      obtain ⟨y, got', q⟩ := r
      obtain ⟨hy, hkeep, hlen, hgone⟩ := readUntil_sound h hgot
      have hfront : (got ++ p.stream).take cap = got' ++ (q.stream.take (cap - got'.length)) := by
        rw [← hkeep, List.take_append, List.take_of_length_le hlen]
      rw [hfront, hstays got' y _ hy] at hfound
      cases hfound
      exact ⟨got', q, rfl, hy, hkeep, hgone⟩

theorem readUntil_missing
    (hstays : ∀ got x more, found got = some x → found (got ++ more) = some x)
    {fuel : Nat} {got : List α} (hfuel : p.stream.length < fuel)
    (hgot : got.length ≤ cap) (hnone : found got = none)
    (hmiss : found ((got ++ p.stream).take cap) = none) :
    readUntil found cap full fuel got p =
      .error (if cap ≤ (got ++ p.stream).length then full else p.gone) := by
  cases h : readUntil found cap full fuel got p with
  | error e => rw [(readUntil_fails h hfuel hgot hnone).2]
  | ok r =>
      obtain ⟨y, got', q⟩ := r
      obtain ⟨hy, hkeep, hlen, -⟩ := readUntil_sound h hgot
      have hfront : (got ++ p.stream).take cap = got' ++ (q.stream.take (cap - got'.length)) := by
        rw [← hkeep, List.take_append, List.take_of_length_le hlen]
      rw [hfront, hstays got' y _ hy] at hmiss
      cases hmiss

end

/-! ## Reading a length -/

theorem readFull_eq {length fuel : Nat} :
    ∀ {got : List α} {p : Peer α ε}, p.stream.length < fuel → got.length ≤ length →
      if length ≤ (got ++ p.stream).length then
        ∃ q, readFull length fuel got p = .ok ((got ++ p.stream).take length, q)
      else readFull length fuel got p = .error p.gone := by
  induction fuel with
  | zero =>
      intro got p hfuel
      exact absurd hfuel (Nat.not_lt_zero _)
  | succ fuel ih =>
      intro got p hfuel hgot
      rw [readFull]
      by_cases hlt : got.length < length
      · rw [if_pos hlt]
        obtain ⟨hend, hrecv⟩ | ⟨piece, q, hrecv, hsplit, hless, hle, hgone⟩ :=
          recv_cases p (show 0 < length - got.length by omega)
        · rw [hrecv, hend, List.append_nil, if_neg (by omega)]
        · rw [hrecv, ← hsplit, ← List.append_assoc, ← hgone]
          exact ih (by omega) (by rw [List.length_append]; omega)
      · rw [if_neg hlt]
        have heq : got.length = length := by omega
        rw [if_pos (by rw [List.length_append]; omega)]
        exact ⟨p, by rw [← heq, List.take_left]⟩

end GeistServe.Lib
