import GeistServe.Geistd.Handle

/-!
# Startup: arguments, environment, listener

`startup` is `main` up to the accept loop: what the arguments and the
environment say, which of three sources the listening socket comes from, and
the daemon that then serves it. `none` is every way to exit before that.
-/

namespace GeistServe.Geistd

def SESS_MAX : Int := 16

def CHAT_MAX : Int := 8

def TOKEN_MIN : Nat := 32

/-! ## Numbers and addresses -/

/-- The digits at the start, as a number. -/
def digits : CStr → Nat → Nat
  | [], n => n
  | c :: rest, n => if 48 ≤ c ∧ c ≤ 57 then digits rest (10 * n + (c.toNat - 48)) else n

/-- `isspace`. -/
def isSpace (c : UInt8) : Bool := c == 32 || (9 ≤ c && c ≤ 13)

/-- A `long`, saturating as `strtol` does. -/
def strtol (s : CStr) : Int :=
  match s.dropWhile isSpace with
  | [] => 0
  | c :: rest =>
      if c = 45 then max (-(digits rest 0 : Int)) (-(2 ^ 63))
      else min (digits (if c = 43 then rest else c :: rest) 0 : Int) (2 ^ 63 - 1)

/-- `atoi`: the `long` cut to an `int`. -/
def atoi (s : CStr) : Int := (strtol s).bmod (2 ^ 32)

/-- One number of a dotted address: no leading zero, at most 255. -/
def octet (s : CStr) : Option Nat :=
  if s ≠ [] ∧ s.all (fun c => decide (48 ≤ c ∧ c ≤ 57)) ∧ digits s 0 ≤ 255 ∧
      (s.head? = some 48 → s.length = 1)
  then some (digits s 0) else none

/-- `inet_pton(AF_INET, …)`. -/
def inetPton (s : CStr) : Option Nat :=
  match (s.splitOn 46).mapM octet with
  | some [a, b, c, d] => some (2 ^ 24 * a + 2 ^ 16 * b + 2 ^ 8 * c + d)
  | _ => none

/-! ## Listeners -/

/-- A listening socket, with the address it is bound to. -/
inductive Listener where
  | unix
  | inet (addr : Nat)
  | inet6 (addr : Nat)
  deriving DecidableEq

/-- A TCP socket that can be reached from outside of loopback. `::1` and the
mapped `127.0.0.0/8` are loopback. -/
def Listener.offLoopback : Listener → Bool
  | .unix => false
  | .inet a => decide (a / 2 ^ 24 ≠ 127)
  | .inet6 a =>
      decide (a ≠ 1 ∧ ¬ (a / 2 ^ 32 = 0xffff ∧ a % 2 ^ 32 / 2 ^ 24 = 127))

/-- What the process finds and what the system answers: its environment, the
listeners it was started with, and whether `socket`, `bind` and `listen`
succeed. -/
structure OS where
  geistdToken : Option CStr := none
  xdgRuntimeDir : Option CStr := none
  listenFds : Option CStr := none
  fd0 : Option Listener := none
  fd3 : Option Listener := none
  uid : CStr := lit "0"
  bound : Bool := true

/-- `net_inherited_listener`: fd 3 for systemd, fd 0 for inetd. -/
def netInheritedListener (os : OS) : Option Listener :=
  match (if os.listenFds.any fun n => decide (1 ≤ atoi n) then os.fd3 else none) with
  | some l => some l
  | none => os.fd0

/-- `net_bind_tcp`. -/
def netBindTcp (os : OS) (host : CStr) : Option Listener :=
  match inetPton host with
  | some a => if os.bound then some (.inet a) else none
  | none => none

/-- `net_bind_unix`. -/
def netBindUnix (os : OS) (path : CStr) : Option Listener :=
  if path.length < 108 ∧ os.bound then some .unix else none

/-! ## Arguments -/

inductive Backend where
  | auto | cpu | gpu
  deriving DecidableEq

/-- `backend_name_for`. -/
def backendNameFor (kind : CStr) : Option Backend :=
  if kind = lit "cpu" then some .cpu
  else if kind = lit "gpu" then some .gpu
  else none

structure Args where
  model : Option CStr := none
  sock : Option CStr := none
  host : Option CStr := none
  backend : Backend := .auto
  port : Int := 0
  stdio : Bool := false
  nMax : Int := 4
  nChats : Int := 2
  idleS : Int := 1800

/-- An option with a value. The outer `none` says that `x` is no such option,
the inner one that its value is refused. -/
def setArg (a : Args) (x v : CStr) : Option (Option Args) :=
  if x = lit "--backend" then
    some ((backendNameFor v).map fun b => { a with backend := b })
  else if x = lit "--socket" then some (some { a with sock := some v })
  else if x = lit "--host" then some (some { a with host := some v })
  else if x = lit "--port" then some (some { a with port := atoi v })
  else if x = lit "--sessions" then some (some { a with nMax := atoi v })
  else if x = lit "--chats" then some (some { a with nChats := atoi v })
  else if x = lit "--idle" then some (some { a with idleS := atoi v })
  else none

/-- An argument that is no option: the model, once. -/
def setModel (a : Args) (x : CStr) : Option Args :=
  if x.head? = some 45 ∨ a.model.isSome then none else some { a with model := some x }

/-- The argument loop; `none` is `usage`. -/
def parseArgs : Args → List CStr → Option Args
  | a, [] => some a
  | a, [x] => if x = lit "--stdio" then some { a with stdio := true } else setModel a x
  | a, x :: v :: rest =>
      if x = lit "--stdio" then parseArgs { a with stdio := true } (v :: rest)
      else match setArg a x v with
        | some (some a') => parseArgs a' rest
        | some none => none
        | none =>
            match setModel a x with
            | some a' => parseArgs a' (v :: rest)
            | none => none

/-- `off_loopback`, as `main` decides it: by the name that `--host` gives. -/
def offLoopback (host : Option CStr) : Bool :=
  host.any fun h => decide (h ≠ lit "127.0.0.1") && decide (h ≠ lit "localhost")

/-! ## main -/

/-- What loading the model yields. -/
structure Loaded (P : Platform) where
  mo : P.E.Model
  eos : Int
  eot : List Int
  rt : Option P.R.Model
  vocab : Nat

/-- The socket path: `--socket`, else in the runtime directory or in `/tmp`. -/
def socketPath (os : OS) (sock : Option CStr) : CStr :=
  match sock, os.xdgRuntimeDir with
  | some s, _ => s
  | none, some rt => (rt ++ lit "/geistd.sock").take 255
  | none, none => (lit "/tmp/geistd-" ++ os.uid ++ lit ".sock").take 255

/-- The listener: an inherited one as it is, else TCP, else a Unix socket. -/
def listener (os : OS) (a : Args) : Option Listener :=
  match netInheritedListener os, a.host with
  | some l, _ => some l
  | none, some host => netBindTcp os host
  | none, none => netBindUnix os (socketPath os a.sock)

variable {P : Platform}

/-- The checks on the arguments and the token, in the order of `main`. -/
def accepted (os : OS) (args : List CStr) : Option Args :=
  if args = [lit "--build-info"] ∨ args = [lit "--backends"] then none
  else match parseArgs {} args with
  | none => none
  | some a =>
      if a.model.isNone ∨ a.nMax < 1 ∨ a.nMax > SESS_MAX ∨ a.nChats < 0 ∨
          a.nChats > CHAT_MAX ∨ a.idleS < 1 then none
      else if a.host.isSome ≠ decide (0 < a.port) then none
      else if os.geistdToken.any fun t => decide (t.length < TOKEN_MIN) then none
      else if offLoopback a.host ∧ os.geistdToken.isNone then none
      else some a

/-- The daemon that serves, with the socket it listens on (`none` with
`--stdio`). `args` are the arguments behind the program's name. -/
def startup (os : OS) (args : List CStr) (load : Option (Loaded P)) :
    Option (Daemon P × Option Listener) :=
  match accepted os args with
  | none => none
  | some a =>
      match (if a.stdio then some none else (listener os a).map some), load with
      | some l, some m =>
          some ({ mo := m.mo
                  eos := m.eos
                  eot := m.eot
                  rt := m.rt
                  chats := List.replicate a.nChats.toNat none
                  vocab := m.vocab
                  sess := List.replicate a.nMax.toNat none
                  idleS := a.idleS.toNat
                  token := os.geistdToken
                  needHello := offLoopback a.host }, l)
      | _, _ => none

end GeistServe.Geistd
