import Mathlib.Algebra.GroupWithZero.Nat
import Mathlib.Algebra.Group.Nat.Defs
import Mathlib.Data.List.Basic
import Mathlib.Data.List.TakeWhile

/-!
# Files of lines

A file of lines is read by a loop of `fgets` with a buffer of `cap` bytes: a
line that does not fit is dropped to its newline, and so is one that has no
newline. The reader is a `Scan` over the bytes, so reading a file and then more
of it is reading both. What a caller needs is how a whole line moves a scan that
stands at the start of a line (`scan_line`), and that any text that ends in a
newline brings it there (`clean_of_newline`).

`seekLine` is the other loop over such a file, the search for the next start of
a line; `upTo` is what it finds in terms of lines.
-/

namespace GeistServe.Lib

abbrev Bytes := List UInt8

/-- A property of every byte of a text is decided by looking at these bytes, not at all 256. -/
instance (priority := 2000) (p : UInt8 → Prop) [DecidablePred p] (s : Bytes) :
    Decidable (∀ c ∈ s, p c) :=
  List.decidableBAll p s

def newline : UInt8 := 10

/-! ## Reading -/

/-- Where a reader stands: whether it is dropping a line that is too long, what
it has of the current buffer, and the lines it has found. -/
structure Scan where
  dropping : Bool := false
  acc : Bytes := []
  out : List Bytes := []

/-- A full buffer, or one that a newline ended. A NUL ends its text. -/
def Scan.chunk (st : Scan) (acc : Bytes) : Scan :=
  let text := acc.takeWhile (· ≠ 0)
  let ended := text.contains newline
  if st.dropping then { dropping := !ended, out := st.out }
  else if ended then { out := st.out ++ [text] }
  else { dropping := true, out := st.out }

def Scan.byte (cap : Nat) (st : Scan) (b : UInt8) : Scan :=
  let acc := st.acc ++ [b]
  if b = newline ∨ acc.length + 1 = cap then st.chunk acc else { st with acc := acc }

def scan (cap : Nat) (st : Scan) (bs : Bytes) : Scan := bs.foldl (Scan.byte cap) st

/-- The lines of a file. What is left in the buffer at the end has no newline. -/
def readLines (cap : Nat) (bs : Bytes) : List Bytes := (scan cap {} bs).out

/-- The reader stands at the start of a line. -/
def Scan.Clean (st : Scan) : Prop := st.dropping = false ∧ st.acc = []

theorem Scan.Clean.eq {st : Scan} (h : st.Clean) : st = { out := st.out } := by
  obtain ⟨dropping, acc, out⟩ := st
  obtain ⟨rfl, rfl⟩ := h
  rfl

theorem scan_append (cap : Nat) (st : Scan) (xs ys : Bytes) :
    scan cap st (xs ++ ys) = scan cap (scan cap st xs) ys :=
  List.foldl_append

theorem scan_cons (cap : Nat) (st : Scan) (b : UInt8) (bs : Bytes) :
    scan cap st (b :: bs) = scan cap (st.byte cap b) bs := rfl

/-- A line: text without a newline or a NUL, and a newline. -/
structure IsLine (l : Bytes) : Prop where
  ex : ∃ body, l = body ++ [newline] ∧ newline ∉ body ∧ (0 : UInt8) ∉ body

/-- The text of a buffer without a NUL is all of it. -/
theorem text_eq {acc : Bytes} (h : (0 : UInt8) ∉ acc) : acc.takeWhile (· ≠ 0) = acc := by
  rw [List.takeWhile_eq_self_iff]
  intro b hb
  rw [decide_eq_true_eq]
  rintro rfl
  exact h hb

/-- A buffer without a newline belongs to a line that is too long. -/
theorem chunk_unended {st : Scan} {acc : Bytes} (h : newline ∉ acc) :
    st.chunk acc = { dropping := true, out := st.out } := by
  have hended : (acc.takeWhile (· ≠ 0)).contains newline = false := by
    rw [List.contains_eq_mem, decide_eq_false_iff_not]
    exact fun hmem => h ((List.takeWhile_sublist _).mem hmem)
  unfold Scan.chunk
  simp only [hended, Bool.not_false, Bool.false_eq_true, if_false, ite_self]

/-- A newline ends a line, or what was being dropped. -/
theorem chunk_ended {st : Scan} {acc : Bytes} (h : newline ∈ acc) (hnul : (0 : UInt8) ∉ acc) :
    st.chunk acc = { out := if st.dropping then st.out else st.out ++ [acc] } := by
  have hended : acc.contains newline = true := by
    rw [List.contains_eq_mem, decide_eq_true_eq]
    exact h
  unfold Scan.chunk
  simp only [text_eq hnul, hended, Bool.not_true, if_true]
  split <;> rfl

theorem chunk_acc (st : Scan) (acc : Bytes) : (st.chunk acc).acc = [] := by
  unfold Scan.chunk
  simp only
  split
  · rfl
  · split <;> rfl

theorem byte_acc_nul {cap : Nat} {st : Scan} {b : UInt8} (hacc : (0 : UInt8) ∉ st.acc)
    (hb : b ≠ 0) : (0 : UInt8) ∉ (st.byte cap b).acc := by
  unfold Scan.byte
  simp only
  split
  · rw [chunk_acc]
    exact List.not_mem_nil
  · simpa using ⟨hacc, hb.symm⟩

theorem scan_acc_nul {cap : Nat} {bs : Bytes} (hbs : (0 : UInt8) ∉ bs) :
    ∀ {st : Scan}, (0 : UInt8) ∉ st.acc → (0 : UInt8) ∉ (scan cap st bs).acc := by
  induction bs with
  | nil => exact fun h => h
  | cons b bs ih =>
      intro st hacc
      rw [List.mem_cons, not_or] at hbs
      rw [scan_cons]
      exact ih hbs.2 (byte_acc_nul hacc (Ne.symm hbs.1))

/-- The byte that is a newline. -/
theorem byte_newline (cap : Nat) {st : Scan} (hacc : (0 : UInt8) ∉ st.acc) :
    st.byte cap newline =
      { out := if st.dropping then st.out else st.out ++ [st.acc ++ [newline]] } := by
  unfold Scan.byte
  simp only [true_or, if_true]
  refine chunk_ended ?_ ?_
  · rw [List.mem_append]
    exact .inr List.mem_cons_self
  · simpa [newline] using hacc

/-- Behind a newline the reader stands at the start of a line. -/
theorem clean_of_newline {cap : Nat} {bs : Bytes} {st : Scan} (hacc : (0 : UInt8) ∉ st.acc)
    (hbs : (0 : UInt8) ∉ bs) : (scan cap st (bs ++ [newline])).Clean := by
  have hnul : (0 : UInt8) ∉ (scan cap st bs).acc := scan_acc_nul hbs hacc
  have hbyte := byte_newline cap hnul
  rw [scan_append]
  exact ⟨congrArg Scan.dropping hbyte, congrArg Scan.acc hbyte⟩

/-- Text without a newline that fits the buffer is only collected. -/
theorem scan_collect {cap : Nat} {bs : Bytes} (hbs : newline ∉ bs) :
    ∀ {st : Scan}, st.acc.length + bs.length + 1 < cap →
      scan cap st bs = { st with acc := st.acc ++ bs } := by
  induction bs with
  | nil =>
      intro st _
      rw [List.append_nil]
      rfl
  | cons b bs ih =>
      intro st hlen
      rw [List.mem_cons, not_or] at hbs
      rw [List.length_cons] at hlen
      have hbyte : st.byte cap b = { st with acc := st.acc ++ [b] } := by
        unfold Scan.byte
        simp only [List.length_append, List.length_singleton]
        rw [if_neg]
        rintro (h | h)
        · exact hbs.1 h.symm
        · omega
      have hnext : ({ st with acc := st.acc ++ [b] } : Scan).acc.length + bs.length + 1 < cap := by
        simp only [List.length_append, List.length_singleton]
        omega
      rw [scan_cons, hbyte, ih hbs.2 hnext]
      simp

/-- Text without a newline adds no line, and what was being dropped still is. -/
theorem scan_out {cap : Nat} {bs : Bytes} (hbs : newline ∉ bs) :
    ∀ {st : Scan}, newline ∉ st.acc → (scan cap st bs).out = st.out ∧
      (st.dropping = true → (scan cap st bs).dropping = true) := by
  induction bs with
  | nil => exact fun _ => ⟨rfl, fun h => h⟩
  | cons b bs ih =>
      intro st hacc
      rw [List.mem_cons, not_or] at hbs
      have hnew : newline ∉ st.acc ++ [b] := by simpa using ⟨hacc, hbs.1⟩
      have hbyte : (st.byte cap b).out = st.out ∧ newline ∉ (st.byte cap b).acc ∧
          (st.dropping = true → (st.byte cap b).dropping = true) := by
        unfold Scan.byte
        simp only
        split
        · rw [chunk_unended hnew]
          exact ⟨rfl, List.not_mem_nil, fun _ => rfl⟩
        · exact ⟨rfl, hnew, fun h => h⟩
      obtain ⟨hout, hdrop⟩ := ih hbs.2 hbyte.2.1
      rw [scan_cons]
      exact ⟨hout.trans hbyte.1, fun h => hdrop (hbyte.2.2 h)⟩

/-- Reading on keeps the lines that were found. -/
theorem scan_out_prefix {cap : Nat} {bs : Bytes} : ∀ {st : Scan},
    st.out <+: (scan cap st bs).out := by
  induction bs with
  | nil => exact List.prefix_refl _
  | cons b bs ih =>
      intro st
      have hbyte : st.out <+: (st.byte cap b).out := by
        unfold Scan.byte
        simp only
        split
        · unfold Scan.chunk
          simp only
          split
          · exact List.prefix_refl _
          · split
            · exact List.prefix_append ..
            · exact List.prefix_refl _
        · exact List.prefix_refl _
      rw [scan_cons]
      exact hbyte.trans ih

/-- A line that fits the buffer is read, from the start of a line. -/
theorem scan_line {cap : Nat} {st : Scan} {l : Bytes} (hst : st.Clean) (hl : IsLine l)
    (hcap : l.length < cap) : scan cap st l = { out := st.out ++ [l] } := by
  obtain ⟨body, rfl, hnew, hnul⟩ := hl.ex
  rw [List.length_append, List.length_singleton] at hcap
  have hbody : scan cap { out := st.out } body = { acc := body, out := st.out } :=
    scan_collect hnew (by simpa using hcap)
  rw [hst.eq, scan_append, hbody]
  exact @byte_newline cap { acc := body, out := st.out } hnul

/-- A line that does not fit the buffer is dropped. -/
theorem scan_long {cap : Nat} {st : Scan} {l : Bytes} (hst : st.Clean) (hl : IsLine l)
    (hcap : cap ≤ l.length) (hpos : 1 < cap) : scan cap st l = { out := st.out } := by
  obtain ⟨body, rfl, hnew, hnul⟩ := hl.ex
  rw [List.length_append, List.length_singleton] at hcap
  -- The buffer is full before the newline comes.
  obtain ⟨first, b, rest, rfl, hfirst⟩ : ∃ first b rest, body = first ++ b :: rest ∧
      first.length + 2 = cap := by
    have hlt : cap - 2 < body.length := by omega
    refine ⟨body.take (cap - 2), body[cap - 2], body.drop (cap - 1), ?_, ?_⟩
    · have hnext : cap - 1 = cap - 2 + 1 := by omega
      rw [hnext, ← List.drop_eq_getElem_cons hlt, List.take_append_drop]
    · rw [List.length_take]
      omega
  simp only [List.mem_append, List.mem_cons, not_or] at hnew hnul
  have hcollect : scan cap { out := st.out } first = { acc := first, out := st.out } :=
    scan_collect hnew.1 (by simp only [List.length_nil]; omega)
  have hfull : ({ acc := first, out := st.out } : Scan).byte cap b =
      { dropping := true, out := st.out } := by
    unfold Scan.byte
    rw [if_pos (Or.inr (by simp only [List.length_append, List.length_singleton]; omega))]
    exact chunk_unended (by simpa using ⟨hnew.1, hnew.2.1⟩)
  have hsplit : first ++ b :: rest ++ [newline] = first ++ b :: (rest ++ [newline]) := by simp
  obtain ⟨hout, hdrop⟩ := @scan_out cap rest hnew.2.2
    { dropping := true, out := st.out } List.not_mem_nil
  have hacc : (0 : UInt8) ∉ (scan cap { dropping := true, out := st.out } rest).acc :=
    scan_acc_nul hnul.2.2 List.not_mem_nil
  have hlast := byte_newline cap hacc
  rw [hdrop rfl, if_pos rfl, hout] at hlast
  rw [hst.eq, hsplit, scan_append, hcollect, scan_cons, hfull, scan_append]
  exact hlast

/-! ## The next start of a line -/

/-- How many bytes it takes to the next start of a line: none behind a newline
or at the end. -/
def seekLine (prev : UInt8) : Bytes → Nat
  | [] => 0
  | b :: rest => if prev = newline then 0 else seekLine b rest + 1

/-- The first lines that together have at least `n` bytes, or all of them. -/
def upTo {α : Type} (size : α → Nat) : Nat → List α → List α
  | 0, _ => []
  | _, [] => []
  | n + 1, x :: xs => x :: upTo size (n + 1 - size x) xs

theorem upTo_start {α : Type} (size : α → Nat) : ∀ (n : Nat) (xs : List α),
    upTo size n xs <+: xs
  | 0, xs => by
      rw [upTo]
      exact List.nil_prefix
  | n + 1, [] => List.nil_prefix
  | n + 1, x :: xs => by
      obtain ⟨ys, hys⟩ := upTo_start size (n + 1 - size x) xs
      exact ⟨ys, by rw [upTo, List.cons_append, hys]⟩

/-- An element is among the first if what lies before it has less than `n`
bytes. -/
theorem mem_upTo {α : Type} [DecidableEq α] {size : α → Nat} {x : α} :
    ∀ {n : Nat} {xs : List α}, x ∈ xs →
      (x ∈ upTo size n xs ↔ ((xs.takeWhile (· ≠ x)).map size).sum < n) := by
  intro n xs
  induction xs generalizing n with
  | nil => exact fun h => absurd h List.not_mem_nil
  | cons y ys ih =>
      intro hx
      cases n with
      | zero => simp [upTo]
      | succ n =>
          by_cases hyx : y = x
          · simp [upTo, hyx]
          · have hmem : x ∈ ys := (List.mem_cons.mp hx).resolve_left fun h => hyx h.symm
            rw [upTo, List.mem_cons, ih hmem, List.takeWhile_cons_of_pos (by simpa using hyx),
              List.map_cons, List.sum_cons]
            constructor
            · rintro (h | h)
              · exact absurd h.symm hyx
              · omega
            · intro h
              exact .inr (by omega)

/-- The first elements go past `n` by less than one of them. -/
theorem upTo_sum_lt {α : Type} {size : α → Nat} {m : Nat} (hm : 0 < m) :
    ∀ {n : Nat} {xs : List α}, (∀ x ∈ xs, size x ≤ m) →
      ((upTo size n xs).map size).sum < n + m := by
  intro n xs
  induction xs generalizing n with
  | nil =>
      intro _
      cases n with
      | zero =>
          rw [upTo, List.map_nil, List.sum_nil]
          omega
      | succ n =>
          rw [upTo, List.map_nil, List.sum_nil]
          · omega
          · intro h
            cases h
  | cons x xs ih =>
      intro hsize
      cases n with
      | zero =>
          rw [upTo, List.map_nil, List.sum_nil]
          omega
      | succ n =>
          have hx := hsize x List.mem_cons_self
          have hrest := ih (n := n + 1 - size x) fun y hy => hsize y (List.mem_cons_of_mem _ hy)
          rw [upTo, List.map_cons, List.sum_cons]
          by_cases hle : size x ≤ n + 1
          · omega
          · rw [Nat.sub_eq_zero_of_le (by omega), upTo, List.map_nil, List.sum_nil]
            omega

theorem upTo_map {α β : Type} (f : α → β) (size : β → Nat) : ∀ (n : Nat) (xs : List α),
    upTo size n (xs.map f) = (upTo (fun x => size (f x)) n xs).map f
  | 0, _ => by rw [upTo, upTo, List.map_nil]
  | _ + 1, [] => rfl
  | n + 1, x :: xs => by
      rw [List.map_cons, upTo, upTo, List.map_cons, upTo_map f size _ xs]

theorem seekLine_body {prev : UInt8} {body rest : Bytes} (hprev : prev ≠ newline)
    (hbody : newline ∉ body) :
    seekLine prev (body ++ newline :: rest) = body.length + 1 := by
  induction body generalizing prev with
  | nil =>
      rw [List.nil_append, seekLine, if_neg hprev]
      cases rest with
      | nil => rfl
      | cons b rest =>
          rw [seekLine, if_pos rfl]
          rfl
  | cons b body ih =>
      rw [List.mem_cons, not_or] at hbody
      rw [List.cons_append, seekLine, if_neg hprev, ih (Ne.symm hbody.1) hbody.2,
        List.length_cons]

/-- Seeking from `n` bytes into a file of lines goes to the end of the first
lines that have `n` bytes. -/
theorem seekLine_upTo : ∀ {ls : List Bytes} {n : Nat}, (∀ l ∈ ls, IsLine l) → 0 < n →
    n ≤ ls.flatten.length →
      n + seekLine (ls.flatten.getD (n - 1) 0) (ls.flatten.drop n) =
        (upTo List.length n ls).flatten.length := by
  intro ls
  induction ls with
  | nil =>
      intro n _ hpos hle
      rw [List.flatten_nil, List.length_nil] at hle
      omega
  | cons l ls ih =>
      intro n hlines hpos hle
      obtain ⟨k, rfl⟩ : ∃ k, n = k + 1 := ⟨n - 1, by omega⟩
      obtain ⟨body, rfl, hbody, _⟩ := (hlines l List.mem_cons_self).ex
      rw [upTo, List.flatten_cons, List.flatten_cons, List.length_append]
      rw [List.flatten_cons, List.length_append, List.length_append, List.length_singleton] at hle
      rw [List.length_append, List.length_singleton, Nat.add_sub_cancel]
      by_cases hin : k < body.length
      · -- inside the first line: the search ends with it
        have hzero : k + 1 - (body.length + 1) = 0 := by omega
        have hprev : (body ++ [newline] ++ ls.flatten).getD k 0 ≠ newline := by
          rw [List.getD_eq_getElem?_getD, List.append_assoc, List.getElem?_append_left hin,
            List.getElem?_eq_getElem hin, Option.getD_some]
          exact fun h => hbody (h ▸ List.getElem_mem hin)
        have hdrop : (body ++ [newline] ++ ls.flatten).drop (k + 1) =
            body.drop (k + 1) ++ newline :: ls.flatten := by
          rw [List.append_assoc, List.drop_append_of_le_length (by omega)]
          rfl
        rw [hdrop, seekLine_body hprev fun h => hbody (List.mem_of_mem_drop h), hzero, upTo,
          List.flatten_nil, List.length_nil, List.length_drop]
        omega
      · by_cases heq : k = body.length
        · -- at its end
          have hzero : k + 1 - (body.length + 1) = 0 := by omega
          have hprev : (body ++ [newline] ++ ls.flatten).getD k 0 = newline := by
            rw [List.getD_eq_getElem?_getD, List.append_assoc, heq, List.getElem?_append_right
              (Nat.le_refl _), Nat.sub_self]
            rfl
          have hseek : ∀ bs, seekLine newline bs = 0 := by
            intro bs
            cases bs with
            | nil => rfl
            | cons b bs => rw [seekLine, if_pos rfl]
          rw [hprev, hseek, hzero, upTo, List.flatten_nil, List.length_nil, heq]
        · -- past it
          have hlen : (body ++ [newline]).length = body.length + 1 := by
            rw [List.length_append, List.length_singleton]
          have hprev : (body ++ [newline] ++ ls.flatten).getD k 0 =
              ls.flatten.getD (k + 1 - (body.length + 1) - 1) 0 := by
            rw [List.getD_eq_getElem?_getD, List.getD_eq_getElem?_getD,
              List.getElem?_append_right (by omega), hlen]
            congr 2
            omega
          have hdrop : (body ++ [newline] ++ ls.flatten).drop (k + 1) =
              ls.flatten.drop (k + 1 - (body.length + 1)) := by
            rw [List.drop_append, List.drop_of_length_le (by omega), hlen, List.nil_append]
          have := ih (n := k + 1 - (body.length + 1))
            (fun l hl => hlines l (List.mem_cons_of_mem _ hl)) (by omega) (by omega)
          rw [hprev, hdrop, ← this]
          omega

end GeistServe.Lib
