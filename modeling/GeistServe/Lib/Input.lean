import GeistServe.Lib.Lines

/-!
# Reading a file through a position

A parser of a binary file is a sequence of reads, relative seeks and checks. A
read of bytes that are not there stops it, and so does a check that fails; a seek
is not a read, and one that goes past the end is no failure. `Fetch` is the monad
of such parsers. What a parser does is kept in its `Cursor` next to the position,
so that a result can speak about the steps of a run.

`seek` takes the count as the program has computed it, before it is reduced to
the machine's word and handed over as a signed number.

`Rules` says which properties go through every parser. `Keeps` is such a property:
a relation between the cursors before and behind a parser, whatever its result
is. `Sat` is what holds behind a parser, for its result and for its cursor.
-/

namespace GeistServe.Lib

/-- A file and the last position that a seek takes. -/
structure Input where
  bytes : Bytes
  limit : Nat
  inside : bytes.length ≤ limit
  long : limit < 2 ^ 63

/-- What a parser does, with the position before it and the one behind it.
`expect` notes a condition that the program relies on and does not check. -/
inductive Access where
  | read (pos n next : Nat)
  | seek (pos n next : Nat)
  | check (pos : Nat) (passes : Bool)
  | expect (pos : Nat) (holds : Bool)
  deriving DecidableEq

def Access.pos : Access → Nat
  | .read pos _ _ | .seek pos _ _ | .check pos _ | .expect pos _ => pos

def Access.next : Access → Nat
  | .read _ _ next | .seek _ _ next => next
  | .check pos _ | .expect pos _ => pos

/-- It is a call on the file. -/
def Access.isCall : Access → Bool
  | .read .. | .seek .. => true
  | .check .. | .expect .. => false

structure Cursor where
  pos : Nat := 0
  steps : List Access := []

/-- Why a parser stops: it met what it refuses, or it had no room for a call. -/
inductive Stop where
  | refused | deep
  deriving DecidableEq

structure Fetch (α : Type) where
  run : Cursor → Except Stop α × Cursor

instance : Monad Fetch where
  pure a := ⟨fun s => (.ok a, s)⟩
  bind x g := ⟨fun s => match x.run s with
    | (.ok a, s') => (g a).run s'
    | (.error e, s') => (.error e, s')⟩

variable {α β : Type}

/-! ## What a parser can do -/

/-- `fread` of `n` bytes. -/
def rd (f : Input) (n : Nat) : Fetch Bytes where
  run s :=
    let bs := (f.bytes.drop s.pos).take n
    (if bs.length = n then .ok bs else .error .refused,
      { pos := s.pos + bs.length, steps := s.steps ++ [.read s.pos n (s.pos + bs.length)] })

/-- Where `fseek` with `SEEK_CUR` goes, of a count that is taken as a signed
number of 64 bits. -/
def target (f : Input) (pos n : Nat) : Option Nat :=
  if n % 2 ^ 64 < 2 ^ 63 then
    if pos + n % 2 ^ 64 ≤ f.limit then some (pos + n % 2 ^ 64) else none
  else if 2 ^ 64 - n % 2 ^ 64 ≤ pos then some (pos - (2 ^ 64 - n % 2 ^ 64)) else none

/-- `fseek` by `n` bytes. -/
def seek (f : Input) (n : Nat) : Fetch Unit where
  run s := match target f s.pos n with
    | some next => (.ok (), { pos := next, steps := s.steps ++ [.seek s.pos n next] })
    | none => (.error .refused, { pos := s.pos, steps := s.steps ++ [.seek s.pos n s.pos] })

def check (passes : Bool) : Fetch Unit where
  run s := (if passes then .ok () else .error .refused,
    { s with steps := s.steps ++ [.check s.pos passes] })

def expect (holds : Bool) : Fetch Unit where
  run s := (.ok (), { s with steps := s.steps ++ [.expect s.pos holds] })

def stop (e : Stop) : Fetch α where
  run s := (.error e, s)

/-- `for (i = 0; i < n; i++)`. -/
def times : Nat → Fetch Unit → Fetch Unit
  | 0, _ => pure ()
  | n + 1, x => do x; times n x

theorem run_ok {x : Fetch α} {g : α → Fetch β} {s s' : Cursor} {a : α}
    (h : x.run s = (.ok a, s')) : (x >>= g).run s = (g a).run s' := by
  simp [Bind.bind, h]

theorem run_error {x : Fetch α} {g : α → Fetch β} {s s' : Cursor} {e : Stop}
    (h : x.run s = (.error e, s')) : (x >>= g).run s = (.error e, s') := by
  simp [Bind.bind, h]

/-- A sequence that stops stops in its first part or in its second. -/
theorem run_stops {x : Fetch α} {g : α → Fetch β} {s s' : Cursor} {e : Stop}
    (h : (x >>= g).run s = (.error e, s')) : x.run s = (.error e, s') ∨
      ∃ a s'', x.run s = (.ok a, s'') ∧ (g a).run s'' = (.error e, s') := by
  rcases hr : x.run s with ⟨r, s''⟩
  cases r with
  | ok a =>
      rw [run_ok hr] at h
      exact .inr ⟨a, s'', rfl, h⟩
  | error e' =>
      rw [run_error hr] at h
      cases h
      exact .inl rfl

/-- A sequence that succeeds does so in both parts. -/
theorem run_succeeds {x : Fetch α} {g : α → Fetch β} {s s' : Cursor} {b : β}
    (h : (x >>= g).run s = (.ok b, s')) :
    ∃ a s'', x.run s = (.ok a, s'') ∧ (g a).run s'' = (.ok b, s') := by
  rcases hr : x.run s with ⟨r, s''⟩
  cases r with
  | ok a =>
      rw [run_ok hr] at h
      exact ⟨a, s'', rfl, h⟩
  | error e =>
      rw [run_error hr] at h
      cases h

theorem rd_ok {f : Input} {s : Cursor} {n : Nat} {bs : Bytes}
    (h : (f.bytes.drop s.pos).take n = bs) (hlen : bs.length = n) :
    (rd f n).run s = (.ok bs,
      { pos := s.pos + n, steps := s.steps ++ [.read s.pos n (s.pos + n)] }) := by
  subst h
  simp only [rd, hlen, if_true]

theorem seek_some {f : Input} {s : Cursor} {n next : Nat} (h : target f s.pos n = some next) :
    (seek f n).run s = (.ok (), { pos := next, steps := s.steps ++ [.seek s.pos n next] }) := by
  simp only [seek, h]

theorem seek_none {f : Input} {s : Cursor} {n : Nat} (h : target f s.pos n = none) :
    (seek f n).run s =
      (.error .refused, { pos := s.pos, steps := s.steps ++ [.seek s.pos n s.pos] }) := by
  simp only [seek, h]

/-! ## Numbers in a file -/

/-- The number that bytes stand for, the lowest byte first. -/
def leVal : Bytes → Nat
  | [] => 0
  | b :: bs => b.toNat + 256 * leVal bs

/-- The bytes of a number, the lowest one first. -/
def leBytes : Nat → Nat → Bytes
  | 0, _ => []
  | w + 1, n => UInt8.ofNat (n % 256) :: leBytes w (n / 256)

@[simp] theorem leBytes_length (w n : Nat) : (leBytes w n).length = w := by
  induction w generalizing n with
  | zero => rfl
  | succ w ih => rw [leBytes, List.length_cons, ih]

theorem leVal_lt (bs : Bytes) : leVal bs < 256 ^ bs.length := by
  induction bs with
  | nil => exact Nat.one_pos
  | cons b bs ih =>
      have hb : b.toNat < 256 := b.toNat_lt
      rw [leVal, List.length_cons, Nat.pow_succ]
      omega

theorem leVal_leBytes {w n : Nat} (h : n < 256 ^ w) : leVal (leBytes w n) = n := by
  induction w generalizing n with
  | zero =>
      rw [Nat.pow_zero] at h
      rw [leBytes, leVal]
      omega
  | succ w ih =>
      have hrest : n / 256 < 256 ^ w := by
        rw [Nat.pow_succ] at h
        exact Nat.div_lt_of_lt_mul (by omega)
      have hbyte : (UInt8.ofNat (n % 256)).toNat = n % 256 := by
        rw [UInt8.toNat_ofNat']
        omega
      rw [leBytes, leVal, ih hrest, hbyte]
      omega

theorem leBytes_leVal (bs : Bytes) : leBytes bs.length (leVal bs) = bs := by
  induction bs with
  | nil => rfl
  | cons b bs ih =>
      have hb : b.toNat < 256 := b.toNat_lt
      have hrest : (b.toNat + 256 * leVal bs) / 256 = leVal bs := by omega
      have hbyte : (b.toNat + 256 * leVal bs) % 256 = b.toNat := by omega
      rw [List.length_cons, leVal, leBytes, hrest, hbyte, ih, UInt8.ofNat_toNat]

/-- A number of `w` bytes, as a read into an integer stores it. -/
def rdLe (f : Input) (w : Nat) : Fetch Nat := do
  let bs ← rd f w
  pure (leVal bs)

theorem rdLe_ok {f : Input} {s : Cursor} {w : Nat} {bs : Bytes}
    (h : (f.bytes.drop s.pos).take w = bs) (hlen : bs.length = w) :
    (rdLe f w).run s = (.ok (leVal bs),
      { pos := s.pos + w, steps := s.steps ++ [.read s.pos w (s.pos + w)] }) :=
  run_ok (rd_ok h hlen)

/-- What a read that succeeds has read. -/
theorem rd_inv {f : Input} {s s' : Cursor} {n : Nat} {bs : Bytes}
    (h : (rd f n).run s = (.ok bs, s')) :
    (f.bytes.drop s.pos).take n = bs ∧ bs.length = n ∧
      s' = { pos := s.pos + n, steps := s.steps ++ [.read s.pos n (s.pos + n)] } := by
  by_cases hlen : ((f.bytes.drop s.pos).take n).length = n
  · rw [rd_ok rfl hlen] at h
    cases h
    exact ⟨rfl, hlen, rfl⟩
  · simp only [rd, if_neg hlen] at h
    cases h

theorem rdLe_inv {f : Input} {s s' : Cursor} {w n : Nat} (h : (rdLe f w).run s = (.ok n, s')) :
    ∃ bs, (f.bytes.drop s.pos).take w = bs ∧ bs.length = w ∧ n = leVal bs ∧
      s' = { pos := s.pos + w, steps := s.steps ++ [.read s.pos w (s.pos + w)] } := by
  obtain ⟨bs, s'', hr, h⟩ := run_succeeds h
  obtain ⟨hbs, hlen, rfl⟩ := rd_inv hr
  cases h
  exact ⟨bs, hbs, hlen, rfl, rfl⟩

/-! ## What holds of every parser -/

/-- A property of parsers that goes through a sequence and that the single accesses
have. -/
structure Rules (f : Input) (C : (α : Type) → Fetch α → Prop) : Prop where
  pure : ∀ {α : Type} (a : α), C α (pure a)
  bind : ∀ {α β : Type} {x : Fetch α} {g : α → Fetch β}, C α x → (∀ a, C β (g a)) →
    C β (x >>= g)
  rd : ∀ n, C Bytes (rd f n)
  seek : ∀ n, C Unit (seek f n)
  check : ∀ b, C Unit (check b)
  expect : ∀ b, C Unit (expect b)

theorem Rules.times {f : Input} {C : (α : Type) → Fetch α → Prop} (h : Rules f C)
    {x : Fetch Unit} (hx : C Unit x) : ∀ n, C Unit (times n x)
  | 0 => h.pure ()
  | n + 1 => h.bind hx fun _ => h.times hx n

theorem Rules.rdLe {f : Input} {C : (α : Type) → Fetch α → Prop} (h : Rules f C) (w : Nat) :
    C Nat (rdLe f w) :=
  h.bind (h.rd w) fun _ => h.pure _

/-- A relation between the cursors before and behind a parser. -/
def Keeps (R : Cursor → Cursor → Prop) (α : Type) (x : Fetch α) : Prop :=
  ∀ s, R s (x.run s).2

/-- A relation that every single access has, and that composes. -/
structure Composes (f : Input) (R : Cursor → Cursor → Prop) : Prop where
  refl : ∀ s, R s s
  trans : ∀ {s s' s''}, R s s' → R s' s'' → R s s''
  rd : ∀ n s, R s ((rd f n).run s).2
  seek : ∀ n s, R s ((seek f n).run s).2
  check : ∀ b s, R s ((check b).run s).2
  expect : ∀ b s, R s ((expect b).run s).2

theorem Composes.rules {f : Input} {R : Cursor → Cursor → Prop} (h : Composes f R) :
    Rules f (Keeps R) where
  pure _ := h.refl
  bind {_ _ x g} hx hg := by
    intro s
    have hfirst := hx s
    rcases hr : x.run s with ⟨r, s'⟩
    rw [hr] at hfirst
    cases r with
    | ok a =>
        rw [run_ok hr]
        exact h.trans hfirst (hg a s')
    | error e =>
        rw [run_error hr]
        exact hfirst
  rd := h.rd
  seek := h.seek
  check := h.check
  expect := h.expect

/-! ## Room on the stack -/

/-- The parser never stops for want of room. -/
def Shallow (α : Type) (x : Fetch α) : Prop := ∀ s s', x.run s ≠ (.error .deep, s')

theorem shallow_rules (f : Input) : Rules f Shallow where
  pure a s s' h := by cases h
  bind hx hg s s' h := by
    rcases run_stops h with h | ⟨a, s'', _, h⟩
    · exact hx s s' h
    · exact hg a s'' s' h
  rd n s s' h := by
    have hresult := congrArg Prod.fst h
    simp only [rd] at hresult
    split at hresult
    · cases hresult
    · cases hresult
  seek n s s' h := by
    cases ht : target f s.pos n with
    | some next =>
        rw [seek_some ht] at h
        cases h
    | none =>
        rw [seek_none ht] at h
        cases h
  check b s s' h := by
    have hresult := congrArg Prod.fst h
    cases b
    · cases hresult
    · cases hresult
  expect b s s' h := by cases h

/-- A loop that stops does so in one of its rounds. -/
theorem times_stops {f : Input} {R : Cursor → Cursor → Prop} (hR : Composes f R)
    {x : Fetch Unit} (hx : Keeps R Unit x) {e : Stop} {s' : Cursor} :
    ∀ {n s}, (times n x).run s = (.error e, s') → ∃ s'', R s s'' ∧ x.run s'' = (.error e, s') := by
  intro n
  induction n with
  | zero =>
      intro s h
      cases h
  | succ n ih =>
      intro s h
      rcases run_stops h with h | ⟨_, s₁, hfirst, h⟩
      · exact ⟨s, hR.refl s, h⟩
      · obtain ⟨s₂, hmore, hstop⟩ := ih h
        have hkept := hx s
        rw [hfirst] at hkept
        exact ⟨s₂, hR.trans hkept hmore, hstop⟩

/-- Where `x` has the room it needs, `y` does the same. -/
def Stays (x y : Fetch α) : Prop := ∀ s, (x.run s).1 = .error .deep ∨ y.run s = x.run s

theorem Stays.refl (x : Fetch α) : Stays x x := fun _ => .inr rfl

theorem Stays.bind {x y : Fetch α} {g h : α → Fetch β} (hxy : Stays x y)
    (hgh : ∀ a, Stays (g a) (h a)) : Stays (x >>= g) (y >>= h) := by
  intro s
  rcases hr : x.run s with ⟨r, s'⟩
  have hfirst := hxy s
  rw [hr] at hfirst
  match r with
  | .ok a =>
      have hy : y.run s = (.ok a, s') := hfirst.resolve_left fun h => by cases h
      rw [run_ok hr, run_ok hy]
      exact hgh a s'
  | .error .refused =>
      have hy : y.run s = (.error .refused, s') := hfirst.resolve_left fun h => by cases h
      rw [run_error hr, run_error hy]
      exact .inr rfl
  | .error .deep =>
      rw [run_error hr]
      exact .inl rfl

theorem Stays.times {x y : Fetch Unit} (h : Stays x y) : ∀ n, Stays (times n x) (times n y)
  | 0 => .refl _
  | n + 1 => h.bind fun _ => h.times n

/-! ## What holds behind a parser -/

def Sat (x : Fetch α) (s : Cursor) (Q : Except Stop α → Cursor → Prop) : Prop :=
  Q (x.run s).1 (x.run s).2

theorem Sat.pure {a : α} {s : Cursor} {Q : Except Stop α → Cursor → Prop} (h : Q (.ok a) s) :
    Sat (Pure.pure a) s Q := h

/-- The rule of composition: behind the first parser either the second one runs,
or it has stopped. -/
theorem Sat.bind {x : Fetch α} {g : α → Fetch β} {s : Cursor}
    {P : Except Stop α → Cursor → Prop} {Q : Except Stop β → Cursor → Prop} (hx : Sat x s P)
    (hok : ∀ a s', P (.ok a) s' → Sat (g a) s' Q)
    (herr : ∀ e s', P (.error e) s' → Q (.error e) s') : Sat (x >>= g) s Q := by
  unfold Sat at hx
  rcases hr : x.run s with ⟨r, s'⟩
  rw [hr] at hx
  cases r with
  | ok a =>
      unfold Sat
      rw [run_ok hr]
      exact hok a s' hx
  | error e =>
      unfold Sat
      rw [run_error hr]
      exact herr e s' hx

theorem Sat.mono {x : Fetch α} {s : Cursor} {P Q : Except Stop α → Cursor → Prop}
    (hx : Sat x s P) (h : ∀ r s', P r s' → Q r s') : Sat x s Q := h _ _ hx

theorem Sat.and {x : Fetch α} {s : Cursor} {P Q : Except Stop α → Cursor → Prop}
    (hp : Sat x s P) (hq : Sat x s Q) : Sat x s fun r s' => P r s' ∧ Q r s' := ⟨hp, hq⟩

end GeistServe.Lib
