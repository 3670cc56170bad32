import GeistServe.Geistd.Handle

/-!
# The plainest platform

An engine whose cache is a list and a runtime that repeats the last message it
was sent. Both are lawful, so the assumptions of `Platform.lean` have a model,
and a run of the daemon can be computed.
-/

namespace GeistServe.Geistd

namespace Plain

/-- A cache and its pin. -/
structure Cache where
  kv : List Int := []
  pin : List Int := []
  deriving DecidableEq

/-- Every call succeeds; the next token is the length of the cache. -/
def engine : Engine where
  Model := Unit
  Sess := Cache
  create _ _ := ((), some {})
  createError _ := []
  prefillTokens s ts := (true, { s with kv := s.kv ++ ts })
  decodeStep s := (some s.kv.length, { s with kv := s.kv ++ [(s.kv.length : Int)] })
  reset s := (true, { s with kv := s.pin })
  pinPrefix s n _ := (true, ⟨s.kv.take n, s.kv.take n⟩)
  errmsg _ := []
  tokenize _ text := some (text.map fun b => (b.toNat : Int))
  tokenToStr _ t := some [UInt8.ofNat t.toNat]
  peekLogits s := if s.kv = [] then 0 else 256
  tokenByText _ _ := -1
  kv := Cache.kv
  pin := Cache.pin

instance : LawfulEngine engine where
  create_new m o m' s h := by
    cases h
    exact ⟨rfl, rfl⟩
  prefill_ok s ts s' h := by
    cases h
    exact ⟨rfl, rfl⟩
  prefill_fail s ts s' h := by cases h
  decode_ok s t s' h := by
    cases h
    exact ⟨rfl, rfl⟩
  decode_fail s s' h := by cases h
  reset_pin s := ⟨rfl, rfl, rfl⟩
  pin_ok s n ts s' h := by
    cases h
    exact ⟨rfl, rfl⟩
  pin_fail s n ts s' h := by cases h

/-- A chat, the pieces it has still to say and what it has said. -/
structure Talk where
  conv : List Turn := []
  todo : List CStr := []
  said : CStr := []
  drops : Bool := false
  deriving DecidableEq

def answerStats (x : Talk) : ChatStats where
  finish := lit "stop"
  inputTokens := 1
  contextTokens := x.conv.length
  outputTokens := 1
  dropped := 0

/-- Every call succeeds; the answer is the last message, in one piece. -/
def runtime : Runtime where
  Model := Unit
  Chat := Talk
  chatOpen _ o := ((), some { drops := o.dropOldest })
  statusText _ := []
  limit x _ := (.ok, x)
  send x ms :=
    (.ok, { x with
      conv := x.conv ++ ms.map Msg.turn
      todo := (ms.getLast?.map Msg.content).toList
      said := [] })
  next x :=
    match x.todo with
    | p :: rest => (.piece false p, { x with todo := rest, said := x.said ++ p })
    | [] => (.fin, { x with conv := x.conv ++ [⟨.assistant, x.said⟩], said := [] })
  cancel x := { x with todo := [] }
  rewind x k := if k ≤ x.conv.length then some { x with conv := x.conv.take k } else none
  stats := answerStats
  length x := x.conv.length
  errorText _ := []
  left x := x.todo.length
  drops := Talk.drops
  conv := Talk.conv
  said := Talk.said

instance : LawfulRuntime runtime where
  open_new m o m' c h := by
    cases h
    exact ⟨rfl, rfl⟩
  limit_conv c n := ⟨rfl, rfl⟩
  send_ok c ms c' h hd := by
    cases h
    exact ⟨rfl, rfl, hd⟩
  send_context c ms c' h hd := by cases h
  next_piece c th t c' h := by
    obtain ⟨conv, todo, said, drops⟩ := c
    cases todo with
    | nil => cases h
    | cons p rest =>
        cases h
        exact ⟨rfl, rfl, Nat.lt_succ_self _, rfl⟩
  next_end c r c' h hr := by
    obtain ⟨conv, todo, said, drops⟩ := c
    cases todo with
    | nil =>
        cases h
        exact ⟨rfl, rfl⟩
    | cons p rest =>
        cases h
        rcases hr with hr | hr <;> cases hr
  rewind_conv c k c' h := by
    simp only [runtime] at h
    split at h
    · cases h
      exact ⟨rfl, rfl⟩
    · cases h
  error_text _ := (by decide : strstr [] (lit "unknown chat") = false)
  status_text _ := (by decide : strstr [] (lit "unknown chat") = false)

end Plain

/-- Both together; a number that does not fit is 0. -/
def plain : Platform where
  E := Plain.engine
  R := Plain.runtime
  sizeOf _ := 0
  int32Of _ := 0
  printG
    | .inf _ => none
    | .nan => some .null
    | n => some (.num n)

instance : LawfulEngine plain.E := inferInstanceAs (LawfulEngine Plain.engine)

instance : LawfulRuntime plain.R := inferInstanceAs (LawfulRuntime Plain.runtime)

/-- A daemon that has just loaded its model. -/
def plainDaemon (sessions chats : Nat) (token : Option CStr) (needHello : Bool) :
    Daemon plain where
  mo := ()
  eos := -1
  eot := []
  rt := some ()
  chats := List.replicate chats none
  vocab := 256
  sess := List.replicate sessions none
  idleS := 1800
  token := token
  needHello := needHello

/-- A request frame: an op, further fields, a body. -/
def request (op : String) (fields : List (String × JVal)) (body : Body) : Frame where
  hdr := some ((lit "op", .str (lit op)) :: fields.map fun m => (lit m.1, m.2))
  body := body

end GeistServe.Geistd
