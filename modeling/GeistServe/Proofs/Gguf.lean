import Mathlib.Data.List.Induction
import GeistServe.Gguf.Layout
import GeistServe.Proofs.Prompt

/-!
# What the header reader accepts

A header that is laid out is read to its end and gives its last values; what makes
the reader refuse one is a bound. The converse holds of every run in which what
the reader passes over is really there. Two things are not looked at: that the
bytes of a seek exist, and that the element type of an array without elements is a
type. A run that slips so is right only if it comes to something it refuses.

`Here` is the file from a position on; both directions are about it. `Passed` is
how a run goes over bytes that are laid out, by induction on the layout, and
`skipVal_sound` gives the layout back from a run, by induction on the room.
-/

namespace GeistServe.Proofs

open GeistServe.Lib GeistServe.Gguf GeistServe.Geistd

variable {f : Input} {α β : Type}

/-! ## Bytes of the file -/

/-- The bytes are in the file at the position. -/
def Here (f : Input) (pos : Nat) (bs : Bytes) : Prop := bs <+: f.bytes.drop pos

theorem Here.take {pos : Nat} {bs : Bytes} (h : Here f pos bs) :
    (f.bytes.drop pos).take bs.length = bs :=
  (List.prefix_iff_eq_take.mp h).symm

theorem Here.length {pos : Nat} {bs : Bytes} (h : Here f pos bs) :
    bs.length ≤ f.bytes.length - pos := by
  have hle := List.IsPrefix.length_le h
  rwa [List.length_drop] at hle

theorem here_of_take {pos n : Nat} {bs : Bytes} (h : (f.bytes.drop pos).take n = bs) :
    Here f pos bs := by
  rw [← h]
  exact List.take_prefix ..

theorem here_nil (pos : Nat) : Here f pos [] := List.nil_prefix

theorem here_append {pos : Nat} {as bs : Bytes} :
    Here f pos (as ++ bs) ↔ Here f pos as ∧ Here f (pos + as.length) bs := by
  constructor
  · rintro ⟨rest, h⟩
    rw [List.append_assoc] at h
    refine ⟨⟨bs ++ rest, h⟩, ⟨rest, ?_⟩⟩
    rw [← List.drop_drop, ← h, List.drop_left]
  · rintro ⟨⟨rest, h⟩, ⟨rest', h'⟩⟩
    rw [← List.drop_drop, ← h, List.drop_left] at h'
    exact ⟨rest', by rw [← h, ← h', List.append_assoc]⟩

/-! ## Slips and refusals -/

/-- What the reader does not look at: the bytes that a seek passes over are not
there, or an array has elements of no type. -/
def Slips (f : Input) : Access → Prop
  | .seek pos n _ => f.bytes.length < pos + n
  | .expect _ holds => holds = false
  | _ => False

/-- Where the reader gives up: a read of bytes that are not there, a seek that fails,
a check that does not pass. -/
def Refuses (f : Input) : Access → Prop
  | .read pos n _ => 0 < n ∧ f.bytes.length < pos + n
  | .seek pos n _ => target f pos n = none
  | .check _ passes => passes = false
  | .expect .. => False

/-- A parser that refuses leaves the access it refused, and no other one does. -/
structure Marks (f : Input) (α : Type) (x : Fetch α) : Prop where
  refused : ∀ s, (x.run s).1 = .error .refused → ∃ a ∈ (x.run s).2.steps, Refuses f a
  others : ∀ s, (x.run s).1 ≠ .error .refused → ∀ a ∈ (x.run s).2.steps, Refuses f a →
    a ∈ s.steps

/-- One access that is refused exactly if the parser is. -/
theorem marks_access {x : Fetch α} {a : Cursor → Access}
    (hsteps : ∀ s, (x.run s).2.steps = s.steps ++ [a s])
    (hiff : ∀ s, (x.run s).1 = .error .refused ↔ Refuses f (a s)) : Marks f α x where
  refused s h := ⟨a s, by rw [hsteps]; exact List.mem_append_right _ (List.mem_singleton_self _),
    (hiff s).mp h⟩
  others s h b hb hrefuses := by
    rw [hsteps] at hb
    rcases List.mem_append.mp hb with hb | hb
    · exact hb
    · rw [List.mem_singleton.mp hb] at hrefuses
      exact absurd ((hiff s).mpr hrefuses) h

theorem marks_rules (f : Input) : Rules f (Marks f) where
  pure _ := ⟨fun _ h => (by cases h), fun _ _ _ ha _ => ha⟩
  bind {_ _ x g} hx hg := by
    refine ⟨fun s h => ?_, fun s h => ?_⟩
    · rcases hr : x.run s with ⟨r, s'⟩
      have hfirst := hx.refused s
      rw [hr] at hfirst
      cases r with
      | ok a =>
          rw [run_ok hr] at h ⊢
          exact (hg a).refused s' h
      | error e =>
          rw [run_error hr] at h ⊢
          exact hfirst (by rw [show e = .refused from Except.error.inj h])
    · rcases hr : x.run s with ⟨r, s'⟩
      have hfirst := hx.others s
      rw [hr] at hfirst
      cases r with
      | ok a =>
          rw [run_ok hr] at h ⊢
          intro b hb hrefuses
          exact hfirst (by simp) b ((hg a).others s' h b hb hrefuses) hrefuses
      | error e =>
          rw [run_error hr] at h ⊢
          exact hfirst fun he => h (by rw [show e = .refused from Except.error.inj he])
  rd n := by
    refine marks_access (fun s => rfl) fun s => ?_
    have hlen : ((f.bytes.drop s.pos).take n).length = min n (f.bytes.length - s.pos) := by simp
    unfold Refuses
    by_cases hn : ((f.bytes.drop s.pos).take n).length = n
    · simp only [rd, if_pos hn]
      refine iff_of_false (by simp) ?_
      omega
    · simp only [rd, if_neg hn, true_iff]
      omega
  seek n := by
    refine marks_access (a := fun s => .seek s.pos n ((target f s.pos n).getD s.pos))
      (fun s => ?_) fun s => ?_
    · cases h : target f s.pos n with
      | some next => rw [seek_some h, Option.getD_some]
      | none => rw [seek_none h, Option.getD_none]
    · unfold Refuses
      cases h : target f s.pos n with
      | some next => simp [seek_some h, h]
      | none => simp [seek_none h, h]
  check b := by
    refine marks_access (fun s => rfl) fun s => ?_
    cases b
    · exact iff_of_true rfl rfl
    · exact iff_of_false (by simp [check]) (by simp [Refuses])
  expect b := marks_access (fun s => rfl) fun s => iff_of_false (by simp [expect]) id

theorem marks_readSection (fuel : Nat) : Marks f Meta (readSection f fuel) :=
  readSection_rules (marks_rules f) fun t => skipVal_rules (marks_rules f)
    ⟨fun _ h => (by cases h), fun _ _ _ ha _ => ha⟩ fuel t

/-! ## Room changes no answer -/

theorem skipVal_stays : ∀ {fuel more : Nat} (t : Nat), fuel ≤ more →
    Stays (skipVal f fuel t) (skipVal f more t) := by
  intro fuel
  induction fuel with
  | zero => exact fun t _ s => .inl rfl
  | succ fuel ih =>
      intro more t hle
      obtain ⟨more, rfl⟩ : ∃ k, more = k + 1 := ⟨more - 1, by omega⟩
      unfold skipVal
      split
      · exact .refl _
      · split_ifs
        · exact .refl _
        · refine Stays.bind (.refl _) fun et => Stays.bind (.refl _) fun n => ?_
          split
          · exact .refl _
          · exact Stays.bind (.refl _) fun _ => (ih et (by omega)).times n
        · exact .refl _

theorem readValue_stays {fuel more : Nat} (hle : fuel ≤ more) (key : Bytes) (t : Nat)
    (out : Meta) : Stays (readValue f fuel key t out) (readValue f more key t out) := by
  unfold readValue
  split
  · exact .refl _
  · split_ifs
    · exact .refl _
    · exact .refl _
    · exact .refl _
    · exact Stays.bind (skipVal_stays t hle) fun _ => .refl _

theorem readPairs_stays {fuel more : Nat} (hle : fuel ≤ more) :
    ∀ n out, Stays (readPairs f fuel n out) (readPairs f more n out) := by
  intro n
  induction n with
  | zero => exact fun out => .refl _
  | succ n ih =>
      intro out
      exact Stays.bind (.refl _) fun key => Stays.bind (.refl _) fun t =>
        Stays.bind (readValue_stays hle key t out) fun out => ih out

theorem readSection_stays {fuel more : Nat} (hle : fuel ≤ more) :
    Stays (readSection f fuel) (readSection f more) :=
  Stays.bind (.refl _) fun _ => Stays.bind (.refl _) fun _ => Stays.bind (.refl _) fun _ =>
    Stays.bind (.refl _) fun _ => Stays.bind (.refl _) fun _ => Stays.bind (.refl _) fun _ =>
      Stays.bind (.refl _) fun _ => readPairs_stays hle _ _

/-! ## The widths, and what a value's type says of its bytes -/

theorem width_eq (t : Nat) : width t = size t := by
  match t with
  | 0 | 1 | 2 | 3 | 4 | 5 | 6 | 7 | 8 | 9 | 10 | 11 | 12 => rfl
  | n + 13 => rfl

theorem size_pos {t w : Nat} (h : size t = some w) : 0 < w := by
  unfold size at h
  split at h
  all_goals
    cases h
    try decide

theorem size_lt {t w : Nat} (h : size t = some w) : t < 13 := by
  by_contra ht
  have hnone : size t = none := by
    match t, ht with
    | n + 13, _ => rfl
  rw [hnone] at h
  cases h

theorem flatten_length {w : Nat} {vs : List Bytes} (h : ∀ v ∈ vs, v.length = w) :
    vs.flatten.length = vs.length * w := by
  induction vs with
  | nil => simp
  | cons v vs ih =>
      have hrest := ih fun u hu => h u (List.mem_cons_of_mem _ hu)
      rw [List.flatten_cons, List.length_append, hrest, h v List.mem_cons_self, List.length_cons,
        Nat.succ_mul, Nat.add_comm]

theorem isValue_fixed {cap t w : Nat} {bs : Bytes} (hw : size t = some w)
    (h : IsValue cap t bs) : bs.length = w := by
  cases h with
  | fixed hw' hbs =>
      rw [hw] at hw'
      cases hw'
      exact hbs
  | str _ => cases hw
  | arr _ _ _ => cases hw

theorem isValue_str {cap : Nat} {bs : Bytes} (h : IsValue cap 8 bs) :
    ∃ s : Bytes, s.length < cap ∧ bs = leBytes 8 s.length ++ s := by
  cases h with
  | fixed hw _ => cases hw
  | str hs => exact ⟨_, hs, rfl⟩

/-! ## A run over what is laid out -/

/-- No access slips that is new. -/
def Unslipped (f : Input) (s s' : Cursor) : Prop := ∀ a ∈ s'.steps, Slips f a → a ∈ s.steps

theorem Unslipped.trans {s s' s'' : Cursor} (h : Unslipped f s s') (h' : Unslipped f s' s'') :
    Unslipped f s s'' := fun a ha hslips => h a (h' a ha hslips) hslips

theorem unslipped_step {s : Cursor} {pos : Nat} {a : Access} (h : ¬ Slips f a) :
    Unslipped f s { pos := pos, steps := s.steps ++ [a] } := by
  intro b hb hslips
  rcases List.mem_append.mp hb with hb | hb
  · exact hb
  · rw [List.mem_singleton.mp hb] at hslips
    exact absurd hslips h

/-- The run does not slip. It went over `n` bytes and gave what `V` says, or it
stopped, and there was a reason if it was refused. -/
def Passed (f : Input) (s : Cursor) (n : Nat) (reason : Prop) (V : α → Prop) :
    Except Stop α → Cursor → Prop
  | .ok a, s' => s'.pos = s.pos + n ∧ Unslipped f s s' ∧ V a
  | .error e, s' => Unslipped f s s' ∧ (e = .refused → reason)

theorem Passed.bind {x : Fetch α} {g : α → Fetch β} {s : Cursor} {n m : Nat} {reason : Prop}
    {V : α → Prop} {W : β → Prop} (hx : Sat x s (Passed f s n reason V))
    (hg : ∀ a s', s'.pos = s.pos + n → V a → Sat (g a) s' (Passed f s' m reason W)) :
    Sat (x >>= g) s (Passed f s (n + m) reason W) := by
  refine Sat.bind hx (fun a s' h => ?_) fun e s' h => h
  obtain ⟨hpos, hclean, hv⟩ := h
  refine (hg a s' hpos hv).mono fun r s'' h' => ?_
  cases r with
  | ok b =>
      obtain ⟨hpos', hclean', hw⟩ := h'
      exact ⟨by omega, hclean.trans hclean', hw⟩
  | error e =>
      obtain ⟨hclean', hreason⟩ := h'
      exact ⟨hclean.trans hclean', hreason⟩

theorem Passed.pure {a : α} {s : Cursor} {reason : Prop} {V : α → Prop} (h : V a) :
    Sat (Pure.pure a) s (Passed f s 0 reason V) :=
  ⟨rfl, fun _ ha _ => ha, h⟩

theorem Passed.because {x : Fetch α} {s : Cursor} {n : Nat} {reason reason' : Prop}
    {V : α → Prop} (hx : Sat x s (Passed f s n reason V)) (h : reason → reason') :
    Sat x s (Passed f s n reason' V) := by
  refine hx.mono fun r s' hr => ?_
  cases r with
  | ok a => exact hr
  | error e => exact ⟨hr.1, fun he => h (hr.2 he)⟩

theorem passed_rd {s : Cursor} {n : Nat} {bs : Bytes} {reason : Prop} (h : Here f s.pos bs)
    (hlen : bs.length = n) : Sat (rd f n) s (Passed f s n reason (· = bs)) := by
  subst hlen
  unfold Sat
  rw [rd_ok h.take rfl]
  exact ⟨rfl, unslipped_step id, rfl⟩

theorem passed_rdLe {s : Cursor} {w : Nat} {bs : Bytes} {reason : Prop} (h : Here f s.pos bs)
    (hlen : bs.length = w) : Sat (rdLe f w) s (Passed f s w reason (· = leVal bs)) := by
  subst hlen
  unfold Sat
  rw [rdLe_ok h.take rfl]
  exact ⟨rfl, unslipped_step id, rfl⟩

/-- A number that was written is read. -/
theorem passed_number {s : Cursor} {w n : Nat} {reason : Prop} (h : Here f s.pos (leBytes w n))
    (hn : n < 256 ^ w) : Sat (rdLe f w) s (Passed f s w reason (· = n)) := by
  have hread : Sat (rdLe f w) s (Passed f s w reason _) := passed_rdLe h (leBytes_length w n)
  rwa [leVal_leBytes hn] at hread

/-- A check that does not pass needs a reason. -/
theorem passed_check {s : Cursor} {b : Bool} {reason : Prop} (h : b = false → reason) :
    Sat (check b) s (Passed f s 0 reason fun _ => b = true) := by
  cases b with
  | true => exact ⟨rfl, unslipped_step id, rfl⟩
  | false => exact ⟨unslipped_step id, fun _ => h rfl⟩

theorem target_inside {pos n : Nat} (h : pos + n ≤ f.bytes.length) :
    target f pos n = some (pos + n) := by
  have hinside := f.inside
  have hlong := f.long
  have hmod : n % 2 ^ 64 = n := Nat.mod_eq_of_lt (by omega)
  unfold target
  rw [hmod, if_pos (by omega), if_pos (by omega)]

theorem passed_seek {s : Cursor} {n : Nat} {reason : Prop} (h : s.pos + n ≤ f.bytes.length) :
    Sat (seek f n) s (Passed f s n reason fun _ => True) := by
  unfold Sat
  rw [seek_some (target_inside h)]
  refine ⟨rfl, unslipped_step ?_, trivial⟩
  unfold Slips
  omega

/-- The elements of an array, one after the other. -/
theorem passed_times {x : Fetch Unit} {reason : Prop} {vs : List Bytes} :
    ∀ {s : Cursor}, Here f s.pos vs.flatten → (∀ v ∈ vs, ∀ s : Cursor, Here f s.pos v →
      Sat x s (Passed f s v.length reason fun _ => True)) →
      Sat (times vs.length x) s (Passed f s vs.flatten.length reason fun _ => True) := by
  induction vs with
  | nil => exact fun _ _ => Passed.pure trivial
  | cons v vs ih =>
      intro s hhere hx
      rw [List.flatten_cons] at hhere ⊢
      obtain ⟨hv, hvs⟩ := here_append.mp hhere
      rw [List.length_append]
      refine Passed.bind (hx v List.mem_cons_self s hv) fun _ s' hpos _ => ih ?_ ?_
      · rwa [hpos]
      · exact fun u hu => hx u (List.mem_cons_of_mem _ hu)

/-- A value that is laid out is passed over, or one of its strings is too long. By
induction on the value, for any room. -/
theorem passed_skipVal {cap t : Nat} {bs : Bytes} (h : IsValue cap t bs) :
    ∀ {fuel : Nat} {s : Cursor}, Here f s.pos bs →
      Sat (skipVal f fuel t) s (Passed f s bs.length (2 ^ 30 < cap) fun _ => True) := by
  have hdeep : ∀ {t n : Nat} {s : Cursor} {reason : Prop},
      Sat (skipVal f 0 t) s (Passed f s n reason fun _ => True) :=
    ⟨fun _ ha _ => ha, fun he => by cases he⟩
  have hfile := f.inside
  have hlong := f.long
  induction h with
  | fixed hw hbs =>
      intro fuel s hhere
      obtain _ | fuel := fuel
      · exact hdeep
      unfold skipVal
      rw [width_eq, hw, hbs]
      have hlen := hhere.length
      have hpos := size_pos hw
      exact passed_seek (by omega)
  | @str s hs =>
      intro fuel s' hhere
      obtain _ | fuel := fuel
      · exact hdeep
      have hlen := hhere.length
      obtain ⟨hcount, _⟩ := here_append.mp hhere
      rw [List.length_append, leBytes_length] at hlen ⊢
      refine Passed.bind (passed_number hcount (by omega)) fun n s₁ hpos hn => ?_
      rw [← Nat.zero_add s.length]
      refine Passed.bind (passed_check fun hbig => ?_) fun _ s₂ hpos' _ => ?_
      · rw [decide_eq_false_iff_not, hn] at hbig
        omega
      · rw [hn]
        exact passed_seek (by omega)
  | @arr et vs het hvs hvalues ih =>
      intro fuel s hhere
      obtain _ | fuel := fuel
      · exact hdeep
      have hlen := hhere.length
      obtain ⟨hheader, helems⟩ := here_append.mp hhere
      obtain ⟨htype, hcount⟩ := here_append.mp hheader
      simp only [List.length_append, leBytes_length] at hlen hcount helems ⊢
      rw [Nat.add_assoc]
      refine Passed.bind (passed_number htype (by omega)) fun et' s₁ hpos het' => ?_
      subst het'
      refine Passed.bind (passed_number (n := vs.length) (by rwa [hpos]) (by omega))
        fun n s₂ hpos' hn => ?_
      subst hn
      have hhere' : Here f s₂.pos vs.flatten := by rwa [hpos', hpos, Nat.add_assoc]
      rw [width_eq]
      cases hw : size et' with
      | some w =>
          have hwidth := flatten_length fun v hv => isValue_fixed hw (hvalues v hv)
          simp only [hwidth] at hlen ⊢
          exact passed_seek (by omega)
      | none =>
          rw [← Nat.zero_add vs.flatten.length]
          have hexpect : Sat (expect (decide (et' < 13))) s₂
              (Passed f s₂ 0 (2 ^ 30 < cap) fun _ => True) := by
            refine ⟨rfl, unslipped_step ?_, trivial⟩
            simp [Slips, het]
          refine Passed.bind hexpect fun _ s₃ hpos'' _ => passed_times ?_ fun v hv s' hv' => ?_
          · rwa [hpos'', Nat.add_zero]
          · exact ih v hv hv'

/-- A string that is laid out and read, or that is too long for its reader. -/
theorem passed_rdStr {cap : Nat} {s : Bytes} {c : Cursor} {reason : Prop}
    (h : Here f c.pos (leBytes 8 s.length ++ s)) (hlen : s.length < 2 ^ 64)
    (hlong : cap < s.length → reason) :
    Sat (rdStr f cap) c (Passed f c (8 + s.length) reason (· = s)) := by
  obtain ⟨hcount, hs⟩ := here_append.mp h
  rw [leBytes_length] at hs
  refine Passed.bind (passed_number hcount (by omega)) fun n c₁ hpos hn => ?_
  subst hn
  rw [← Nat.zero_add s.length]
  refine Passed.bind (passed_check fun hbig => hlong ?_) fun _ c₂ hpos' _ => ?_
  · rw [decide_eq_false_iff_not] at hbig
    omega
  · rw [Nat.zero_add]
    exact passed_rd (by rwa [hpos', hpos, Nat.add_zero]) rfl

/-! ## The pairs -/

/-- What a pair changes of the values that are kept. -/
def put (out : Meta) (p : Pair) : Meta :=
  if p.isStr "tokenizer.chat_template" then { out with tpl := some p.text }
  else if p.isStr "general.architecture" then { out with arch := some p.text }
  else if p.isStr "general.size_label" then { out with sizeLabel := some p.text }
  else if p.type = 7 ∧ p.key = lit "tokenizer.ggml.add_bos_token" then
    { out with addBos := decide (leVal p.value ≠ 0) }
  else if p.type = 4 ∧ p.key = lit "general.file_type" then
    { out with fileType := leVal p.value }
  else if p.type = 4 ∧ (lit ".context_length").isSuffixOf p.key then
    { out with contextLength := leVal p.value }
  else out

/-- The reader takes the pair. -/
structure Within (cap : Nat) (p : Pair) : Prop where
  cap : cap ≤ 2 ^ 30
  nul : (0 : UInt8) ∉ p.key
  key : p.key.length ≤ 4096
  text : p.kept = true → p.text.length ≤ 2 ^ 20

theorem isKey_eq {key : Bytes} (h : (0 : UInt8) ∉ key) (s : String) :
    isKey key s = decide (key = lit s) := by
  rw [isKey, cstr, text_eq h]

theorem endsWith_eq {key : Bytes} (h : (0 : UInt8) ∉ key) (s : String) :
    endsWith key s = (lit s).isSuffixOf key := by
  rw [endsWith, cstr, text_eq h, Bool.eq_iff_iff, Bool.and_eq_true, decide_eq_true_eq,
    decide_eq_true_eq, List.isSuffixOf_iff_suffix, List.suffix_iff_eq_drop]
  constructor
  · exact fun ⟨_, h⟩ => h.symm
  · intro h
    refine ⟨?_, h.symm⟩
    have hlen := congrArg List.length h
    rw [List.length_drop] at hlen
    omega

/-- What is kept of a string is what its place among the values says. -/
theorem strDst_some {p : Pair} {dst : StrDst} (h : strDst p.key p.type = some dst) :
    p.type = 8 ∧ ((0 : UInt8) ∉ p.key →
      p.kept = true ∧ ∀ out : Meta, put out p = out.setStr p.text dst) := by
  unfold strDst at h
  have htype : p.type = 8 := by
    split_ifs at h with h₁ h₂ h₃
    · exact h₁.1
    · exact h₂.1
    · exact h₃.1
  refine ⟨htype, fun hnul => ?_⟩
  simp only [isKey_eq hnul, htype, GG_STR, true_and, decide_eq_true_eq] at h
  unfold put Pair.kept Pair.isStr
  simp only [htype, decide_true, Bool.true_and, decide_eq_true_eq]
  split_ifs at h with h₁ h₂ h₃
  · cases h
    refine ⟨by simp [h₁], fun out => ?_⟩
    rw [if_pos h₁]
    rfl
  · cases h
    refine ⟨by simp [h₂], fun out => ?_⟩
    rw [if_neg h₁, if_pos h₂]
    rfl
  · cases h
    refine ⟨by simp [h₃], fun out => ?_⟩
    rw [if_neg h₁, if_neg h₂, if_pos h₃]
    rfl

theorem strDst_none {p : Pair} (h : strDst p.key p.type = none) (hnul : (0 : UInt8) ∉ p.key)
    (out : Meta) : put out p =
      if p.type = GG_BOOL ∧ p.key = lit "tokenizer.ggml.add_bos_token" then
        { out with addBos := decide (leVal p.value ≠ 0) }
      else if p.type = GG_U32 ∧ p.key = lit "general.file_type" then
        { out with fileType := leVal p.value }
      else if p.type = GG_U32 ∧ (lit ".context_length").isSuffixOf p.key then
        { out with contextLength := leVal p.value }
      else out := by
  unfold strDst at h
  simp only [isKey_eq hnul, GG_STR, decide_eq_true_eq] at h
  split_ifs at h with h₁ h₂ h₃
  unfold put Pair.isStr
  simp only [Bool.and_eq_true, decide_eq_true_eq, if_neg h₁, if_neg h₂, if_neg h₃]
  rfl

theorem passed_readValue {cap fuel : Nat} {p : Pair} {s : Cursor} {out : Meta}
    (hvalue : IsValue cap p.type p.value) (hhere : Here f s.pos p.value) :
    Sat (readValue f fuel p.key p.type out) s (Passed f s p.value.length (¬ Within cap p)
      fun out' => (0 : UInt8) ∉ p.key → out' = put out p) := by
  have hlong : f.bytes.length < 2 ^ 63 := Nat.lt_of_le_of_lt f.inside f.long
  unfold readValue
  rw [← Nat.add_zero p.value.length]
  cases hdst : strDst p.key p.type with
  | some dst =>
      obtain ⟨htype, hkept⟩ := strDst_some hdst
      rw [htype] at hvalue
      obtain ⟨text, _, htext⟩ := isValue_str hvalue
      have hdrop : p.text = text := by
        rw [Pair.text, htext, List.drop_left' (leBytes_length 8 _)]
      have hlen := hhere.length
      rw [htext] at hhere
      rw [htext, List.length_append, leBytes_length] at hlen ⊢
      refine Passed.bind (passed_rdStr hhere (by omega) fun hbig hwithin => ?_) fun s' _ _ hs =>
        Passed.pure fun hnul => ?_
      · have hle := hwithin.text (hkept hwithin.nul).1
        rw [hdrop] at hle
        omega
      · rw [(hkept hnul).2, hdrop, hs]
  | none =>
      have hput := strDst_none hdst
      simp only
      split_ifs with h₁ h₂ h₃
      · have hlen := isValue_fixed (w := 1) (by rw [h₁.1]; rfl) hvalue
        rw [hlen]
        refine Passed.bind (passed_rdLe hhere hlen) fun b _ _ hb => Passed.pure fun hnul => ?_
        rw [isKey_eq hnul, decide_eq_true_eq] at h₁
        rw [hput hnul, if_pos h₁, hb]
      · have hlen := isValue_fixed (w := 4) (by rw [h₂.1]; rfl) hvalue
        rw [hlen]
        refine Passed.bind (passed_rdLe hhere hlen) fun b _ _ hb => Passed.pure fun hnul => ?_
        rw [isKey_eq hnul, decide_eq_true_eq] at h₁ h₂
        rw [hput hnul, if_neg h₁, if_pos h₂, hb]
      · have hlen := isValue_fixed (w := 4) (by rw [h₃.1]; rfl) hvalue
        rw [hlen]
        refine Passed.bind (passed_rdLe hhere hlen) fun b _ _ hb => Passed.pure fun hnul => ?_
        rw [isKey_eq hnul, decide_eq_true_eq] at h₁ h₂
        rw [endsWith_eq hnul] at h₃
        rw [hput hnul, if_neg h₁, if_neg h₂, if_pos h₃, hb]
      · have hreason : 2 ^ 30 < cap → ¬ Within cap p :=
          fun hbig hwithin => absurd hwithin.cap (by omega)
        have hskip : Sat (skipVal f fuel p.type) s _ :=
          Passed.because (passed_skipVal hvalue hhere) hreason
        refine Passed.bind hskip fun _ _ _ _ => Passed.pure fun hnul => ?_
        rw [isKey_eq hnul, decide_eq_true_eq] at h₁ h₂
        rw [endsWith_eq hnul] at h₃
        rw [hput hnul, if_neg h₁, if_neg h₂, if_neg h₃]

theorem isValue_type {cap t : Nat} {bs : Bytes} (h : IsValue cap t bs) : t < 2 ^ 32 := by
  cases h with
  | fixed hw _ => exact (size_lt hw).trans (by omega)
  | str _ => omega
  | arr _ _ _ => omega

/-- The loop over pairs that are laid out. By induction on the pairs. -/
theorem passed_readPairs {cap fuel : Nat} {ps : List Pair} :
    ∀ {s : Cursor} {out : Meta},
      (∀ p ∈ ps, p.key.length < 2 ^ 64 ∧ IsValue cap p.type p.value) →
      Here f s.pos (ps.map Pair.bytes).flatten →
      Sat (readPairs f fuel ps.length out) s (Passed f s (ps.map Pair.bytes).flatten.length
        (¬ ∀ p ∈ ps, Within cap p)
        fun out' => (∀ p ∈ ps, (0 : UInt8) ∉ p.key) → out' = ps.foldl put out) := by
  induction ps with
  | nil => exact fun _ _ => Passed.pure fun _ => rfl
  | cons p ps ih =>
      intro s out hlaid hhere
      obtain ⟨hkey, hvalue⟩ := hlaid p List.mem_cons_self
      rw [List.map_cons, List.flatten_cons] at hhere ⊢
      obtain ⟨hp, hps⟩ := here_append.mp hhere
      obtain ⟨hbefore, hv⟩ := here_append.mp hp
      obtain ⟨hk, ht⟩ := here_append.mp hbefore
      have hnot : ¬ Within cap p → ¬ ∀ q ∈ p :: ps, Within cap q :=
        fun h hall => h (hall p List.mem_cons_self)
      have hlen : (p.bytes ++ (ps.map Pair.bytes).flatten).length =
          8 + p.key.length + (4 + (p.value.length + (ps.map Pair.bytes).flatten.length)) := by
        simp only [Pair.bytes, List.length_append, leBytes_length]
        omega
      simp only [Pair.bytes, List.length_append, leBytes_length] at ht hv hps
      rw [hlen]
      have hlong : 4096 < p.key.length → ¬ ∀ q ∈ p :: ps, Within cap q := by
        intro hlong
        refine hnot fun hwithin => ?_
        have hle := hwithin.key
        omega
      refine Passed.bind (passed_rdStr hk hkey hlong) fun key s₁ hpos₁ hkey' => ?_
      subst hkey'
      refine Passed.bind (passed_number (n := p.type) (by rwa [hpos₁])
        (isValue_type hvalue)) fun t s₂ hpos₂ ht' => ?_
      subst ht'
      have hv' : Here f s₂.pos p.value := by
        rwa [hpos₂, hpos₁, Nat.add_assoc]
      refine Passed.bind (Passed.because (passed_readValue hvalue hv') hnot)
        fun out₁ s₃ hpos₃ hout => ?_
      have hps' : Here f s₃.pos (ps.map Pair.bytes).flatten := by
        have heq : s₃.pos = s.pos + (8 + p.key.length + 4 + p.value.length) := by omega
        rwa [heq]
      refine (ih (fun q hq => hlaid q (List.mem_cons_of_mem _ hq)) hps').mono fun r s₄ h => ?_
      cases r with
      | ok out₂ =>
          refine ⟨h.1, h.2.1, fun hnul => ?_⟩
          rw [h.2.2 fun q hq => hnul q (List.mem_cons_of_mem _ hq),
            hout (hnul p List.mem_cons_self), List.foldl_cons]
      | error e =>
          exact ⟨h.1, fun he hall => h.2 he fun q hq => hall q (List.mem_cons_of_mem _ hq)⟩

/-! ## The last values -/

theorem last_append (meant : Pair → Bool) (ps : List Pair) (p : Pair) :
    last meant (ps ++ [p]) = if meant p then some p else last meant ps := by
  unfold last
  rw [List.filter_append]
  by_cases h : meant p
  · simp [h]
  · simp [h]

theorem isStr_iff {p : Pair} {key : String} :
    p.isStr key = true ↔ p.type = 8 ∧ p.key = lit key := by
  unfold Pair.isStr
  rw [Bool.and_eq_true, decide_eq_true_eq, decide_eq_true_eq]

theorem isStr_ne {p : Pair} {key : String} (h : p.isStr key = true) (key' : String)
    (hne : lit key ≠ lit key') : p.isStr key' = false := by
  rw [Bool.eq_false_iff]
  intro h'
  exact hne ((isStr_iff.mp h).2.symm.trans (isStr_iff.mp h').2)

/-- One pair more. The conditions for what is kept exclude each other. -/
theorem metaOf_append (ps : List Pair) (p : Pair) : metaOf (ps ++ [p]) = put (metaOf ps) p := by
  unfold metaOf put
  simp only [last_append]
  by_cases h₁ : p.isStr "tokenizer.chat_template" = true
  · have h₂ := isStr_ne h₁ "general.architecture" (by decide)
    have h₃ := isStr_ne h₁ "general.size_label" (by decide)
    simp [h₁, h₂, h₃, (isStr_iff.mp h₁).1]
  by_cases h₂ : p.isStr "general.architecture" = true
  · have h₃ := isStr_ne h₂ "general.size_label" (by decide)
    simp [h₁, h₂, h₃, (isStr_iff.mp h₂).1]
  by_cases h₃ : p.isStr "general.size_label" = true
  · simp [h₁, h₂, h₃, (isStr_iff.mp h₃).1]
  by_cases h₄ : p.type = 7 ∧ p.key = lit "tokenizer.ggml.add_bos_token"
  · simp [h₁, h₂, h₃, h₄]
  by_cases h₅ : p.type = 4 ∧ p.key = lit "general.file_type"
  · have h₆ : ¬ (lit ".context_length").isSuffixOf (lit "general.file_type") = true := by decide
    have h₄' : lit "general.file_type" ≠ lit "tokenizer.ggml.add_bos_token" := by decide
    simp [h₁, h₂, h₃, h₅, h₆, h₄']
  by_cases h₆ : p.type = 4 ∧ (lit ".context_length").isSuffixOf p.key = true
  · have h₅' : p.key ≠ lit "general.file_type" := fun h => h₅ ⟨h₆.1, h⟩
    simp [h₁, h₂, h₃, h₅', h₆.1, h₆.2]
  · rw [List.isSuffixOf_iff_suffix] at h₆
    simp [h₁, h₂, h₃, h₄, h₅, h₆]

theorem foldl_put (ps : List Pair) : ps.foldl put {} = metaOf ps := by
  induction ps using List.reverseRecOn with
  | nil => rfl
  | append_singleton ps p ih =>
      rw [List.foldl_append, ih, List.foldl_cons, List.foldl_nil, metaOf_append]

/-! ## The section -/

/-- A section that is laid out is read without a slip; what it gives are its last
values, and what is refused is a bound. -/
theorem passed_readSection (fuel : Nat) {cap : Nat} {h : Header} (hlaid : h.Laid cap)
    (hstarts : h.bytes <+: f.bytes) :
    Sat (readSection f fuel) {} (Passed f {} h.bytes.length
      (¬ (h.pairs.length < 65536 ∧ ∀ p ∈ h.pairs, Within cap p))
      fun out => (∀ p ∈ h.pairs, (0 : UInt8) ∉ p.key) → out = metaOf h.pairs) := by
  have hhere : Here f 0 h.bytes := by rwa [Here, List.drop_zero]
  obtain ⟨h₁, hpairs⟩ := here_append.mp hhere
  obtain ⟨h₂, hcount⟩ := here_append.mp h₁
  obtain ⟨h₃, htensors⟩ := here_append.mp h₂
  obtain ⟨hmagic, hversion⟩ := here_append.mp h₃
  have hfour : (lit "GGUF").length = 4 := rfl
  have hlen : h.bytes.length = 4 + (0 + (4 + (0 + (8 + (8 + (0 +
      (h.pairs.map Pair.bytes).flatten.length)))))) := by
    simp only [Header.bytes, List.length_append, leBytes_length, hfour]
    omega
  simp only [List.length_append, leBytes_length, hfour] at hpairs hcount htensors hversion
  rw [hlen]
  refine Passed.bind (passed_rd hmagic hfour) fun magic s₁ hpos₁ hm => ?_
  refine Passed.bind (passed_check fun hno => ?_) fun _ s₂ hpos₂ _ => ?_
  · rw [hm] at hno
    simp at hno
  refine Passed.bind (passed_number (n := h.version) (by rwa [hpos₂, hpos₁])
    hlaid.version.2) fun version s₃ hpos₃ hv => ?_
  refine Passed.bind (passed_check fun hno => ?_) fun _ s₄ hpos₄ _ => ?_
  · rw [decide_eq_false_iff_not, hv] at hno
    exact absurd hlaid.version.1 hno
  refine Passed.bind (passed_number (n := h.tensors) (by rwa [hpos₄, hpos₃, hpos₂, hpos₁])
    hlaid.tensors) fun _ s₅ hpos₅ _ => ?_
  refine Passed.bind (passed_number (n := h.pairs.length)
    (by rwa [hpos₅, hpos₄, hpos₃, hpos₂, hpos₁]) hlaid.count) fun nKv s₆ hpos₆ hn => ?_
  subst hn
  refine Passed.bind (passed_check fun hno hall => ?_) fun _ s₇ hpos₇ _ => ?_
  · rw [decide_eq_false_iff_not] at hno
    exact hno hall.1
  have hhere₇ : Here f s₇.pos (h.pairs.map Pair.bytes).flatten := by
    rwa [hpos₇, hpos₆, hpos₅, hpos₄, hpos₃, hpos₂, hpos₁]
  refine (passed_readPairs hlaid.pairs hhere₇).mono fun r s₈ hr => ?_
  cases r with
  | ok out => exact ⟨hr.1, hr.2.1, fun hnul => by rw [hr.2.2 hnul, foldl_put]⟩
  | error e => exact ⟨hr.1, fun he hall => hr.2 he hall.2⟩

/-! ## The layout from a run -/

/-- An access of a run that is part of a longer one. -/
theorem earlier {x : Fetch α} {s s' : Cursor} {r : Except Stop α} (hx : Keeps Onward α x)
    (h : x.run s = (r, s')) {P : Access → Prop} (hall : ∀ a ∈ s'.steps, P a) :
    ∀ a ∈ s.steps, P a := by
  have hkept := hx s
  rw [h] at hkept
  exact fun a ha => hall a (hkept.steps.subset ha)

/-- A seek that does not slip passes over bytes of the file. -/
theorem seek_sound {s s' : Cursor} {n : Nat} (h : (seek f n).run s = (.ok (), s'))
    (hall : ∀ a ∈ s'.steps, ¬ Slips f a) :
    s.pos + n ≤ f.bytes.length ∧ s'.pos = s.pos + n := by
  cases ht : target f s.pos n with
  | none =>
      rw [seek_none ht] at h
      cases h
  | some next =>
      rw [seek_some ht] at h
      cases h
      have hhere : ¬ Slips f (.seek s.pos n next) :=
        hall _ (List.mem_append_right _ (List.mem_singleton_self _))
      unfold Slips at hhere
      have hle : s.pos + n ≤ f.bytes.length := by omega
      rw [target_inside hle] at ht
      cases ht
      exact ⟨hle, rfl⟩

theorem here_slice {pos n : Nat} (h : pos + n ≤ f.bytes.length) :
    Here f pos ((f.bytes.drop pos).take n) ∧ ((f.bytes.drop pos).take n).length = n := by
  refine ⟨List.take_prefix .., ?_⟩
  rw [List.length_take, List.length_drop]
  omega

/-- The bytes of `n` elements of the same width. -/
theorem chunks (w : Nat) : ∀ (n : Nat) (bs : Bytes), bs.length = n * w →
    ∃ vs : List Bytes, vs.length = n ∧ (∀ v ∈ vs, v.length = w) ∧ vs.flatten = bs
  | 0, bs, h => ⟨[], rfl, by simp, by
      rw [Nat.zero_mul] at h
      rw [List.length_eq_zero_iff.mp h, List.flatten_nil]⟩
  | n + 1, bs, h => by
      rw [Nat.succ_mul] at h
      obtain ⟨vs, hlen, hall, hflat⟩ := chunks w n (bs.drop w) (by rw [List.length_drop]; omega)
      refine ⟨bs.take w :: vs, by rw [List.length_cons, hlen], fun v hv => ?_, ?_⟩
      · rcases List.mem_cons.mp hv with rfl | hv
        · rw [List.length_take]
          omega
        · exact hall v hv
      · rw [List.flatten_cons, hflat, List.take_append_drop]

/-- The rounds of a loop give their elements. -/
theorem times_sound {x : Fetch Unit} {V : Bytes → Prop} (hkeeps : Keeps Onward Unit x)
    (hx : ∀ s s', x.run s = (.ok (), s') → (∀ a ∈ s'.steps, ¬ Slips f a) →
      ∃ bs, V bs ∧ Here f s.pos bs ∧ s'.pos = s.pos + bs.length) :
    ∀ {n : Nat} {s s' : Cursor}, (times n x).run s = (.ok (), s') →
      (∀ a ∈ s'.steps, ¬ Slips f a) →
      ∃ vs : List Bytes, vs.length = n ∧ (∀ v ∈ vs, V v) ∧ Here f s.pos vs.flatten ∧
        s'.pos = s.pos + vs.flatten.length := by
  intro n
  induction n with
  | zero =>
      intro s s' h _
      cases h
      exact ⟨[], rfl, by simp, here_nil _, rfl⟩
  | succ n ih =>
      intro s s' h hall
      obtain ⟨_, s₁, hfirst, hrest⟩ := run_succeeds h
      have hmid := earlier (Rules.times (onward f).rules hkeeps n) hrest hall
      obtain ⟨v, hv, hhere, hpos⟩ := hx s s₁ hfirst hmid
      obtain ⟨vs, hlen, hvs, hhere', hpos'⟩ := ih hrest hall
      rw [hpos] at hhere' hpos'
      refine ⟨v :: vs, by rw [List.length_cons, hlen], fun u hu => ?_, ?_, ?_⟩
      · rcases List.mem_cons.mp hu with rfl | hu
        · exact hv
        · exact hvs u hu
      · rw [List.flatten_cons]
        exact here_append.mpr ⟨hhere, hhere'⟩
      · rw [List.flatten_cons, List.length_append]
        omega

theorem rd_sound {s s' : Cursor} {n : Nat} {bs : Bytes} (h : (rd f n).run s = (.ok bs, s')) :
    Here f s.pos bs ∧ bs.length = n ∧ s'.pos = s.pos + n := by
  obtain ⟨htake, hlen, rfl⟩ := rd_inv h
  exact ⟨here_of_take htake, hlen, rfl⟩

theorem rdLe_sound {s s' : Cursor} {w n : Nat} (h : (rdLe f w).run s = (.ok n, s')) :
    Here f s.pos (leBytes w n) ∧ n < 256 ^ w ∧ s'.pos = s.pos + w := by
  obtain ⟨bs, htake, hlen, rfl, rfl⟩ := rdLe_inv h
  subst hlen
  rw [leBytes_leVal]
  exact ⟨here_of_take htake, leVal_lt bs, rfl⟩

theorem check_sound {s s' : Cursor} {b : Bool} (h : (check b).run s = (.ok (), s')) :
    b = true ∧ s'.pos = s.pos := by
  cases b with
  | true =>
      cases h
      exact ⟨rfl, rfl⟩
  | false => cases congrArg Prod.fst h

/-- What a run passes over without a slip is a value that is laid out. By induction
on the room, as each array inside an array is read in a call. -/
theorem skipVal_sound : ∀ {fuel t : Nat} {s s' : Cursor},
    (skipVal f fuel t).run s = (.ok (), s') → (∀ a ∈ s'.steps, ¬ Slips f a) →
      ∃ bs, IsValue (2 ^ 64) t bs ∧ Here f s.pos bs ∧ s'.pos = s.pos + bs.length := by
  intro fuel
  induction fuel with
  | zero =>
      intro t s s' h _
      cases h
  | succ fuel ih =>
      intro t s s' h hall
      unfold skipVal at h
      rw [width_eq] at h
      cases hw : size t with
      | some w =>
          rw [hw] at h
          obtain ⟨hle, hpos⟩ := seek_sound h hall
          obtain ⟨hhere, hlen⟩ := here_slice hle
          exact ⟨_, .fixed hw hlen, hhere, by rw [hlen, hpos]⟩
      | none =>
          rw [hw] at h
          simp only at h
          split_ifs at h with hstr harr
          · obtain ⟨n, s₁, hread, h⟩ := run_succeeds h
            obtain ⟨hcount, _, hpos₁⟩ := rdLe_sound hread
            obtain ⟨_, s₂, hcheck, h⟩ := run_succeeds h
            obtain ⟨hcap, hpos₂⟩ := check_sound hcheck
            rw [decide_eq_true_eq] at hcap
            obtain ⟨hle, hpos⟩ := seek_sound h hall
            obtain ⟨hhere, hslice⟩ := here_slice hle
            rw [hpos₂, hpos₁] at hhere hslice
            rw [hstr]
            refine ⟨leBytes 8 n ++ (f.bytes.drop (s.pos + 8)).take n, ?_, ?_, ?_⟩
            · have hvalue : IsValue (2 ^ 64) 8 _ :=
                .str (s := (f.bytes.drop (s.pos + 8)).take n) (by rw [hslice]; omega)
              rwa [hslice] at hvalue
            · refine here_append.mpr ⟨hcount, ?_⟩
              rwa [leBytes_length]
            · rw [List.length_append, leBytes_length, hslice]
              omega
          · obtain ⟨et, s₁, htype, h⟩ := run_succeeds h
            obtain ⟨hhere₁, _, hpos₁⟩ := rdLe_sound htype
            obtain ⟨n, s₂, hcount, h⟩ := run_succeeds h
            obtain ⟨hhere₂, hless, hpos₂⟩ := rdLe_sound hcount
            rw [hpos₁] at hhere₂
            -- What the elements are is all that is left.
            suffices helems : et < 13 ∧ ∃ vs : List Bytes, vs.length = n ∧
                (∀ v ∈ vs, IsValue (2 ^ 64) et v) ∧ Here f s₂.pos vs.flatten ∧
                s'.pos = s₂.pos + vs.flatten.length by
              obtain ⟨het, vs, rfl, hvalues, hhere, hpos⟩ := helems
              rw [hpos₂, hpos₁, Nat.add_assoc] at hhere
              rw [harr]
              refine ⟨_, .arr het hless hvalues, here_append.mpr ⟨here_append.mpr ⟨hhere₁, ?_⟩, ?_⟩,
                ?_⟩
              · rwa [leBytes_length]
              · rwa [List.length_append, leBytes_length, leBytes_length]
              · simp only [List.length_append, leBytes_length]
                omega
            rw [width_eq] at h
            cases hw' : size et with
            | some w =>
                rw [hw'] at h
                obtain ⟨hle, hpos⟩ := seek_sound h hall
                obtain ⟨hhere, hslice⟩ := here_slice hle
                obtain ⟨vs, hvs, hwidth, hflat⟩ := chunks w _ _ hslice
                refine ⟨size_lt hw', vs, hvs, fun v hv => .fixed hw' (hwidth v hv), ?_, ?_⟩
                · rwa [hflat]
                · rw [hflat, hslice, hpos]
            | none =>
                rw [hw'] at h
                obtain ⟨_, s₃, hexpect, h⟩ := run_succeeds h
                have hkeeps := skipVal_keeps (onward f) fuel et
                have hmid := earlier (Rules.times (onward f).rules hkeeps _) h hall
                cases hexpect
                have hknown := hmid _ (List.mem_append_right _ (List.mem_singleton_self _))
                obtain ⟨vs, hvs, hvalues, hhere, hpos⟩ :=
                  times_sound hkeeps (fun s s' => ih) h hall
                refine ⟨?_, vs, hvs, hvalues, hhere, hpos⟩
                simpa [Slips] using hknown
          · cases (check_sound h).1

theorem rdStr_sound {cap : Nat} {s s' : Cursor} {bs : Bytes}
    (h : (rdStr f cap).run s = (.ok bs, s')) :
    Here f s.pos (leBytes 8 bs.length ++ bs) ∧ bs.length < 2 ^ 64 ∧
      s'.pos = s.pos + (8 + bs.length) := by
  obtain ⟨n, s₁, hread, h⟩ := run_succeeds h
  obtain ⟨hcount, hless, hpos₁⟩ := rdLe_sound hread
  obtain ⟨_, s₂, hcheck, h⟩ := run_succeeds h
  obtain ⟨_, hpos₂⟩ := check_sound hcheck
  obtain ⟨hhere, rfl, hpos⟩ := rd_sound h
  rw [hpos₂, hpos₁] at hhere
  refine ⟨here_append.mpr ⟨hcount, ?_⟩, hless, by omega⟩
  rwa [leBytes_length]

/-- The value of a pair, kept or not. -/
theorem readValue_sound {fuel t : Nat} {key : Bytes} {out out' : Meta} {s s' : Cursor}
    (h : (readValue f fuel key t out).run s = (.ok out', s'))
    (hall : ∀ a ∈ s'.steps, ¬ Slips f a) :
    ∃ bs, IsValue (2 ^ 64) t bs ∧ Here f s.pos bs ∧ s'.pos = s.pos + bs.length := by
  -- A number that is kept is a value of its width.
  have hnumber : ∀ {w n s'}, size t = some w → (rdLe f w).run s = (.ok n, s') →
      ∃ bs, IsValue (2 ^ 64) t bs ∧ Here f s.pos bs ∧ s'.pos = s.pos + bs.length := by
    intro w n s' hw hread
    obtain ⟨hhere, _, hpos⟩ := rdLe_sound hread
    have hlen := leBytes_length w n
    exact ⟨_, .fixed hw hlen, hhere, by rw [hlen, hpos]⟩
  unfold readValue at h
  cases hdst : strDst key t with
  | some dst =>
      have htype : t = 8 := (strDst_some (p := ⟨key, t, []⟩) hdst).1
      rw [hdst] at h
      obtain ⟨text, s₁, hread, h⟩ := run_succeeds h
      obtain ⟨hhere, hless, hpos⟩ := rdStr_sound hread
      cases h
      rw [htype]
      refine ⟨_, .str hless, hhere, ?_⟩
      rw [List.length_append, leBytes_length, hpos]
  | none =>
      rw [hdst] at h
      simp only at h
      split_ifs at h with h₁ h₂ h₃
      · obtain ⟨b, s₁, hread, h⟩ := run_succeeds h
        cases h
        exact hnumber (by rw [h₁.1]; rfl) hread
      · obtain ⟨b, s₁, hread, h⟩ := run_succeeds h
        cases h
        exact hnumber (by rw [h₂.1]; rfl) hread
      · obtain ⟨b, s₁, hread, h⟩ := run_succeeds h
        cases h
        exact hnumber (by rw [h₃.1]; rfl) hread
      · obtain ⟨_, s₁, hskip, h⟩ := run_succeeds h
        cases h
        exact skipVal_sound hskip hall

/-- The pairs. -/
theorem readPairs_sound {fuel : Nat} : ∀ {n : Nat} {out out' : Meta} {s s' : Cursor},
    (readPairs f fuel n out).run s = (.ok out', s') → (∀ a ∈ s'.steps, ¬ Slips f a) →
      ∃ ps : List Pair, ps.length = n ∧
        (∀ p ∈ ps, p.key.length < 2 ^ 64 ∧ IsValue (2 ^ 64) p.type p.value) ∧
        Here f s.pos (ps.map Pair.bytes).flatten := by
  intro n
  induction n with
  | zero => exact fun _ _ => ⟨[], rfl, by simp, here_nil _⟩
  | succ n ih =>
      intro out out' s s' h hall
      obtain ⟨key, s₁, hread, h⟩ := run_succeeds h
      obtain ⟨hkey, hless, hpos₁⟩ := rdStr_sound hread
      obtain ⟨t, s₂, htype, h⟩ := run_succeeds h
      obtain ⟨ht, _, hpos₂⟩ := rdLe_sound htype
      obtain ⟨out₁, s₃, hvalue, h⟩ := run_succeeds h
      have hmid := earlier (readPairs_rules (onward f).rules (skipVal_keeps (onward f) fuel) n out₁)
        h hall
      obtain ⟨bs, hbs, hhere, hpos₃⟩ := readValue_sound hvalue hmid
      obtain ⟨ps, hlen, hps, hrest⟩ := ih h hall
      refine ⟨⟨key, t, bs⟩ :: ps, by rw [List.length_cons, hlen], fun p hp => ?_, ?_⟩
      · rcases List.mem_cons.mp hp with rfl | hp
        · exact ⟨hless, hbs⟩
        · exact hps p hp
      · rw [hpos₁] at ht
        rw [hpos₂, hpos₁] at hhere
        rw [hpos₃, hpos₂, hpos₁] at hrest
        rw [List.map_cons, List.flatten_cons, Pair.bytes]
        refine here_append.mpr ⟨here_append.mpr ⟨here_append.mpr ⟨hkey, ?_⟩, ?_⟩, ?_⟩
        · rwa [List.length_append, leBytes_length]
        · simpa only [List.length_append, leBytes_length, Nat.add_assoc] using hhere
        · simpa only [List.length_append, leBytes_length, Nat.add_assoc] using hrest

/-- A run that succeeds without a slip has read a section that is laid out. -/
theorem readSection_sound {fuel : Nat} {out : Meta} {s' : Cursor}
    (h : (readSection f fuel).run {} = (.ok out, s')) (hall : ∀ a ∈ s'.steps, ¬ Slips f a) :
    ∃ h : Header, h.Laid (2 ^ 64) ∧ h.bytes <+: f.bytes := by
  obtain ⟨magic, s₁, hread, h⟩ := run_succeeds h
  obtain ⟨hmagic, _, hpos₁⟩ := rd_sound hread
  obtain ⟨_, s₂, hcheck, h⟩ := run_succeeds h
  obtain ⟨hgguf, hpos₂⟩ := check_sound hcheck
  rw [decide_eq_true_eq] at hgguf
  rw [hgguf] at hmagic
  obtain ⟨version, s₃, hread, h⟩ := run_succeeds h
  obtain ⟨hversion, hless, hpos₃⟩ := rdLe_sound hread
  obtain ⟨_, s₄, hcheck, h⟩ := run_succeeds h
  obtain ⟨htwo, hpos₄⟩ := check_sound hcheck
  rw [decide_eq_true_eq] at htwo
  obtain ⟨tensors, s₅, hread, h⟩ := run_succeeds h
  obtain ⟨htensors, hless', hpos₅⟩ := rdLe_sound hread
  obtain ⟨nKv, s₆, hread, h⟩ := run_succeeds h
  obtain ⟨hcount, hless'', hpos₆⟩ := rdLe_sound hread
  obtain ⟨_, s₇, hcheck, h⟩ := run_succeeds h
  obtain ⟨_, hpos₇⟩ := check_sound hcheck
  obtain ⟨ps, rfl, hps, hpairs⟩ := readPairs_sound h hall
  have hfour : (lit "GGUF").length = 4 := rfl
  refine ⟨⟨version, tensors, ps⟩, ⟨⟨htwo, hless⟩, hless', hless'', hps⟩, ?_⟩
  rw [hpos₇, hpos₆, hpos₅, hpos₄, hpos₃, hpos₂, hpos₁] at hpairs
  rw [hpos₅, hpos₄, hpos₃, hpos₂, hpos₁] at hcount
  rw [hpos₄, hpos₃, hpos₂, hpos₁] at htensors
  rw [hpos₂, hpos₁] at hversion
  have hhere : Here f 0 (Header.bytes ⟨version, tensors, ps⟩) := by
    refine here_append.mpr ⟨here_append.mpr ⟨here_append.mpr ⟨here_append.mpr ⟨hmagic, ?_⟩, ?_⟩,
      ?_⟩, ?_⟩
    · simpa only [hfour] using hversion
    · simpa only [List.length_append, leBytes_length, hfour] using htensors
    · simpa only [List.length_append, leBytes_length, hfour] using hcount
    · simpa only [List.length_append, leBytes_length, hfour] using hpairs
  rwa [Here, List.drop_zero] at hhere

/-! ## The result -/

/-- With enough room on the stack the answer for the file is `r`. -/
def Returns (f : Input) (r : Bool × Meta) : Prop :=
  ∃ enough, ∀ fuel, enough ≤ fuel → ggufReadMeta (some f) fuel = some r

/-- A file that is well formed gives its last values, one that is malformed the
defaults. -/
structure Exact (f : Input) : Prop where
  wellFormed : ∀ h, WellFormed f h → Returns f (true, metaOf h.pairs)
  malformed : Malformed f → Returns f (false, {})

theorem wellFormed_within {h : Header} (hwell : WellFormed f h) :
    h.pairs.length < 65536 ∧ ∀ p ∈ h.pairs, Within (2 ^ 30) p :=
  ⟨hwell.few, fun p hp => ⟨Nat.le_refl _, (hwell.keys p hp).1, (hwell.keys p hp).2,
    hwell.texts p hp⟩⟩

/-- A seek that goes backward passes over more than there is. -/
theorem slips_of_backward {a : Access} (h : Backward a) : Slips f a := by
  have hfile := f.inside
  have hlong := f.long
  cases a with
  | seek pos n next =>
      have hle := Nat.mod_le n (2 ^ 64)
      unfold Backward at h
      unfold Slips
      omega
  | read pos n next => exact h
  | check pos passes => exact h
  | expect pos holds => exact absurd h id

/-- A run without a slip has an answer. -/
theorem unslipped_ends {fuel : Nat} (h : ∀ a ∈ accesses f fuel, ¬ Slips f a)
    (hfuel : f.bytes.length < fuel) : ((readSection f fuel).run {}).1 ≠ .error .deep := by
  have hends := forward_ends (fun a ha hback => h a ha (slips_of_backward hback))
    (show f.bytes.length < 12 * fuel by omega)
  intro hdeep
  exact hends (by simp only [ggufReadMeta, hdeep])

/-- A run over a section that is laid out does not slip. -/
theorem laid_unslipped {cap fuel : Nat} {h : Header} (hlaid : h.Laid cap)
    (hstarts : h.bytes <+: f.bytes) : ∀ a ∈ accesses f fuel, ¬ Slips f a := by
  have hpassed := passed_readSection fuel hlaid hstarts
  unfold Sat at hpassed
  unfold accesses
  rcases hr : (readSection f fuel).run {} with ⟨r, s'⟩
  rw [hr] at hpassed
  have hclean : Unslipped f {} s' := by
    cases r with
    | ok out => exact hpassed.2.1
    | error e => exact hpassed.1
  exact fun a ha hslips => List.not_mem_nil (hclean a ha hslips)

/-- The first half: it has no exception. -/
theorem wellFormed_returns {h : Header} (hwell : WellFormed f h) :
    Returns f (true, metaOf h.pairs) := by
  refine ⟨f.bytes.length + 1, fun fuel hfuel => ?_⟩
  have hpassed := passed_readSection fuel hwell.laid hwell.starts
  have hends := unslipped_ends (laid_unslipped hwell.laid hwell.starts) hfuel
  unfold Sat at hpassed
  unfold ggufReadMeta
  simp only
  rcases hr : (readSection f fuel).run {} with ⟨r, s'⟩
  rw [hr] at hpassed hends
  match r with
  | .ok out =>
      have hout := hpassed.2.2 fun p hp => (hwell.keys p hp).1
      rw [hout]
  | .error .refused => exact absurd (wellFormed_within hwell) (hpassed.2 rfl)
  | .error .deep => exact absurd rfl hends

/-- A run that is refused is refused with any more room. -/
theorem returns_of_refused {fuel : Nat} (h : ((readSection f fuel).run {}).1 = .error .refused) :
    Returns f (false, {}) := by
  refine ⟨fuel, fun more hle => ?_⟩
  have hsame := (readSection_stays (f := f) hle {}).resolve_left (by rw [h]; simp)
  simp only [ggufReadMeta, hsame, h]

theorem refused_of_returns {fuel : Nat} (h : ggufReadMeta (some f) fuel = some (false, {})) :
    ((readSection f fuel).run {}).1 = .error .refused := by
  unfold ggufReadMeta at h
  simp only at h
  split at h
  · cases h
  · next hr => exact hr
  · cases h

theorem refused_iff {fuel : Nat} : ((readSection f fuel).run {}).1 = .error .refused ↔
    ∃ a ∈ accesses f fuel, Refuses f a := by
  have hmarks := marks_readSection (f := f) fuel
  constructor
  · exact hmarks.refused {}
  · rintro ⟨a, ha, hrefuses⟩
    by_contra hne
    exact List.not_mem_nil (hmarks.others {} hne a ha hrefuses)

/-- One pair, a number of four bytes, and the file ends where they should be. -/
def truncated : Input where
  bytes := lit "GGUF" ++ leBytes 4 3 ++ leBytes 8 0 ++ leBytes 8 1 ++ leBytes 8 1 ++ lit "a" ++
    leBytes 4 GG_U32
  limit := 2 ^ 62
  inside := by decide
  long := seek_limit_long

end GeistServe.Proofs
