import GeistServe.Perf.Record

/-!
# The model job

`model_job` of jobs.c: it downloads the part file of a model, or takes the file that is
there, verifies it, puts it in its place and starts it. What the system answers to each
call is part of the input: the status of a file, the chunks that curl brings, the blocks
that are read, and what the cancellation flags say whenever they are asked. The result
lists what the job has done to the files, in order.
-/

namespace GeistServe.Jobs

open GeistServe.Lib GeistServe.Geistd
open GeistServe.Perf (decimal)

/-- `struct stat`, as far as a stamp reads it. -/
structure Stat where
  dev : UInt64
  ino : UInt64
  size : Int64
  mode : UInt64
  uid : UInt64
  gid : UInt64
  nlink : UInt64
  mtime : Int64
  mtimeNsec : Int64
  ctime : Int64
  ctimeNsec : Int64
  deriving DecidableEq

/-- `S_ISREG`. -/
def Stat.regular (s : Stat) : Bool := decide (s.mode &&& 0o170000 = 0o100000)

/-- `struct app_model`, as far as a job reads it. The catalog admits no other digests. -/
structure AppModel where
  id : CStr
  sha256 : CStr
  bytes : UInt64
  digest : sha256.length = 64

/-! ## The stamp -/

/-- `%jd`. -/
def signed (i : Int64) : CStr :=
  if i.toInt < 0 then 45 :: decimal i.toInt.natAbs else decimal i.toInt.natAbs

/-- The numbers of a stamp, in order. -/
def Stat.numbers (s : Stat) : List CStr :=
  [decimal s.dev.toNat, decimal s.ino.toNat, decimal s.size.toUInt64.toNat,
    decimal s.mode.toNat, decimal s.uid.toNat, decimal s.gid.toNat, decimal s.nlink.toNat,
    signed s.mtime, signed s.mtimeNsec, signed s.ctime, signed s.ctimeNsec]

def stampText (m : AppModel) (s : Stat) : CStr :=
  lit "v1 " ++ m.sha256 ++ s.numbers.flatMap fun w => 32 :: w

/-- The file is one that can be stamped: a regular file of the size of the model. -/
def Stat.whole (m : AppModel) (s : Stat) : Bool :=
  s.regular && decide (0 ≤ s.size.toInt) && decide (s.size.toInt = m.bytes.toNat)

/-- `model_stamp`, with the answer of `lstat`. -/
def modelStamp (m : AppModel) : Option Stat → Option CStr
  | none => none
  | some s =>
    if s.whole m then
      if (stampText m s).length < 512 then some (stampText m s) else none
    else none

/-! ## The download -/

/-- A call of `download_write`: its arguments, whether the job is to stop, and how much
`fwrite` writes. -/
structure Chunk where
  size : Nat
  n : Nat
  stopped : Bool
  written : Nat

/-- `download_write`: the bytes of the file, and what curl gets back. -/
def downloadWrite (limit bytes : Nat) (c : Chunk) : Nat × Nat :=
  if c.stopped || decide (2 ^ 64 ≤ c.size * c.n) || decide (2 ^ 64 ≤ bytes + c.size * c.n) ||
      decide (limit < bytes + c.size * c.n) then
    (bytes, 0)
  else
    (bytes + min c.written (c.size * c.n), min c.written (c.size * c.n))

/-- The sizes that the file takes. curl stops when a chunk is not taken as a whole. -/
def receive (limit bytes : Nat) : List Chunk → List Nat
  | [] => []
  | c :: cs =>
    (downloadWrite limit bytes c).1 ::
      if (downloadWrite limit bytes c).2 = c.size * c.n then
        receive limit (downloadWrite limit bytes c).1 cs
      else []

/-- What a transfer comes to: the chunks, whether curl is content, the status of the
response, and `curl_easy_strerror`. -/
structure Transfer where
  chunks : List Chunk
  done : Bool
  status : Int
  error : CStr

/-- The calls of `download_model`. `opened` holds `strerror` where the file cannot be
opened. -/
structure DownloadCalls where
  opened : Except CStr Unit
  found : Option Stat
  stream : Bool
  atEnd : Bool
  connected : Bool
  transfer : Transfer
  flushed : Bool
  synced : Bool
  closed : Bool

/-- What is left of a download: whether the file is complete, what is to be said, and the
sizes that the part file has had, from the one it was found with. -/
structure Downloaded where
  ok : Bool
  why : CStr
  sizes : List Nat

/-- The part file can be resumed: it is a regular file, no larger than the model. -/
def Stat.resumable (m : AppModel) (s : Stat) : Bool :=
  s.regular && decide (0 ≤ s.size.toInt) && decide (s.size.toInt.toNat ≤ m.bytes.toNat)

/-- The sizes after the one that the file was found with. -/
def transferred (m : AppModel) (bytes : Nat) (c : DownloadCalls) : List Nat :=
  if decide (bytes ≠ m.bytes.toNat) && c.atEnd && c.connected then
    receive m.bytes.toNat bytes c.transfer.chunks
  else []

/-- The file is open, with `bytes` in it: the transfer, and what it says. -/
def transfer (m : AppModel) (bytes : Nat) (c : DownloadCalls) : Bool × CStr :=
  if bytes = m.bytes.toNat then (true, [])
  else if c.atEnd && c.connected then
    if c.transfer.done && (decide (c.transfer.status = 200) || decide (c.transfer.status = 206)) &&
        decide ((transferred m bytes c).getLastD bytes = m.bytes.toNat) then
      (true, [])
    else
      (false, lit "Download paused: " ++ c.transfer.error ++
        lit ". Retry resumes the partial file.")
  else (false, lit "Cannot allocate the download connection.")

/-- `download_model`. -/
def downloadModel (m : AppModel) (c : DownloadCalls) : Downloaded :=
  match c.opened with
  | .error e => ⟨false, lit "Cannot create download file: " ++ e, []⟩
  | .ok _ =>
    match c.found with
    | none => ⟨false, lit "Invalid partial download. Remove the .part file and retry.", []⟩
    | some s =>
      if !s.resumable m then
        ⟨false, lit "Invalid partial download. Remove the .part file and retry.", []⟩
      else if !c.stream then ⟨false, lit "Cannot open download stream.", [s.size.toInt.toNat]⟩
      else
        let bytes := s.size.toInt.toNat
        let sizes := bytes :: transferred m bytes c
        if !(c.flushed && c.synced) then
          ⟨false, lit "Cannot save download: disk full or I/O error.", sizes⟩
        else ⟨(transfer m bytes c).1 && c.closed, (transfer m bytes c).2, sizes⟩

/-! ## The hash -/

/-- A round of the loop of `app_sha256_interruptible`: whether the job is to stop, what
`read` answers, and whether the digest takes the block. -/
structure ReadCall where
  stopped : Bool
  answer : Option Bytes
  taken : Bool

structure HashCalls where
  opened : Bool
  started : Bool
  reads : List ReadCall
  finished : Bool

/-- What the loop has read when the file ends. Behind the last call the file has ended. -/
def readAll (acc : Bytes) : List ReadCall → Option Bytes
  | [] => some acc
  | r :: rs =>
    if r.stopped then none
    else match r.answer with
      | none => none
      | some [] => some acc
      | some (b :: bs) => if r.taken then readAll (acc ++ b :: bs) rs else none

/-- The content of the file, where all of it could be read and hashed. -/
def hashed (c : HashCalls) : Option Bytes :=
  if c.opened && c.started && c.finished then readAll [] c.reads else none

/-- `app_sha256_interruptible`: the digest in hexadecimal. The hash function is
OpenSSL's. -/
def appSha256 (sha256 : Bytes → CStr) (c : HashCalls) : Option CStr := (hashed c).map sha256

/-! ## The job -/

/-- The two files of a model. -/
inductive FileName where
  | part
  | target
  deriving DecidableEq

/-- What a job does that is seen outside. `wrote` is the size that the part file has
then. -/
inductive Deed where
  | wrote (size : Nat)
  | unlinked (file : FileName)
  | renamed
  | saved (key text : CStr)
  | spawned (id : CStr)
  deriving DecidableEq

/-- What was asked for: `app.job.download` and `app.job.activate`. -/
structure Order where
  download : Bool
  activate : Bool

/-- The calls of `model_job`, in order. `paths` says whether the names fit. `held` and
`placed` are the answers of `fstat` and `lstat` behind the rename, `renamed` holds
`strerror` where that fails. The `stopped…` are the answers of the cancellation flags. -/
structure JobCalls where
  paths : Bool
  download : DownloadCalls
  before : Option Stat
  receipt : Option CStr
  stoppedBefore : Bool
  hash : HashCalls
  after : Option Stat
  stoppedAtRemoval : Bool
  stoppedAtMessage : Bool
  verifiedFd : Bool
  unplaced : Option Stat
  renamed : Except CStr Unit
  held : Option Stat
  placed : Option Stat
  final : Option Stat
  stoppedAtSave : Bool
  stoppedAtEnd : Bool
  stoppedAtActivity : Bool
  starts : Bool
  pid : Bool

/-- The state of a job between its steps: `ok`, `why`, the stamp in `after`, and what has
been done. -/
structure Progress where
  ok : Bool
  why : CStr
  after : CStr
  deeds : List Deed

/-- `verify`. -/
def Order.verify (o : Order) : FileName := if o.download then .part else .target

/-- The first step: the names, and the download. -/
def fetch (m : AppModel) (o : Order) (c : JobCalls) : Progress :=
  if !c.paths then ⟨false, [], [], []⟩
  else if o.download then
    let d := downloadModel m c.download
    ⟨d.ok, d.why, [], d.sizes.map .wrote⟩
  else ⟨true, [], [], []⟩

/-- The stamp is the one of the receipt. -/
def cached (m : AppModel) (o : Order) (c : JobCalls) : Bool :=
  !o.download && (modelStamp m c.before).isSome &&
    decide (c.receipt = modelStamp m c.before)

/-- What is read of the file. It is not hashed when there is a receipt, nor when it could
not be stamped. -/
def digestOf (sha256 : Bytes → CStr) (m : AppModel) (o : Order) (c : JobCalls) : Option CStr :=
  if cached m o c || (modelStamp m c.before).isNone then none else appSha256 sha256 c.hash

def stable (m : AppModel) (c : JobCalls) : Bool :=
  (modelStamp m c.after).isSome && decide (modelStamp m c.after = modelStamp m c.before)

/-- The verification of a file that is there. -/
def verifyFile (sha256 : Bytes → CStr) (m : AppModel) (o : Order) (c : JobCalls)
    (p : Progress) : Progress :=
  let sizeOk := (modelStamp m c.before).isSome
  let hashOk := cached m o c || (digestOf sha256 m o c).isSome
  if hashOk && stable m c &&
      (cached m o c || decide (digestOf sha256 m o c = some m.sha256)) then
    { p with ok := true, after := (modelStamp m c.after).getD [] }
  else
    let why := lit "Checksum or size mismatch. The model was not started; download it again."
    let after := (modelStamp m c.after).getD []
    if !c.stoppedAtRemoval && (!sizeOk || (hashOk && stable m c)) then
      ⟨false, why, after, p.deeds ++ [.unlinked o.verify]⟩
    else if !c.stoppedAtMessage then
      ⟨false, lit "Cannot read the model for verification. Check disk and file permissions.",
        after, p.deeds⟩
    else ⟨false, why, after, p.deeds⟩

/-- A verified part file takes the place of the model file. -/
def placeFile (m : AppModel) (c : JobCalls) (p : Progress) : Progress :=
  let changed := fun why : CStr =>
    if why.isEmpty then lit "Cannot finish verification. The model file changed." else why
  if !(c.verifiedFd && (modelStamp m c.unplaced).isSome &&
      decide (modelStamp m c.unplaced = modelStamp m c.before)) then
    { p with ok := false, why := changed p.why }
  else match c.renamed with
    | .error e => { p with ok := false, why := lit "Cannot finish download: " ++ e }
    | .ok _ =>
      let deeds := p.deeds ++ [.renamed]
      match c.held, c.placed, modelStamp m c.final with
      | some held, some placed, some final =>
        if held.dev = placed.dev ∧ held.ino = placed.ino then
          { p with after := final, deeds := deeds }
        else { p with ok := false, why := changed p.why, deeds := deeds }
      | _, _, _ => { p with ok := false, why := changed p.why, deeds := deeds }

/-- `key`. -/
def receiptKey (m : AppModel) : CStr := lit "verified-" ++ m.sha256

/-- The receipt of a file that has been verified now. -/
def saveReceipt (m : AppModel) (o : Order) (c : JobCalls) (p : Progress) : Progress :=
  if p.ok && !cached m o c && !c.stoppedAtSave then
    { p with deeds := p.deeds ++ [.saved (receiptKey m) p.after] }
  else p

/-- The steps of a job up to its end. -/
def prepare (sha256 : Bytes → CStr) (m : AppModel) (o : Order) (c : JobCalls) : Progress :=
  let p := fetch m o c
  if p.ok && !c.stoppedBefore then
    let p := verifyFile sha256 m o c p
    let p := if p.ok && o.download then placeFile m c p else p
    saveReceipt m o c p
  else p

/-- The end of a job: what it has done, `app.message` where the job sets it, and how its
activity ends. -/
structure JobEnd where
  deeds : List Deed
  message : Option CStr
  activity : Option (CStr × Nat)

/-- `model_job`. `app.message` is `start_child`'s where the model is started. -/
def modelJob (sha256 : Bytes → CStr) (m : AppModel) (o : Order) (c : JobCalls) : JobEnd :=
  let p := prepare sha256 m o c
  let activity :=
    if c.stoppedAtActivity then some (lit "cancelled", 499)
    else if !p.ok || (o.activate && !c.pid) then some (lit "failed", 502)
    else if !o.activate then some (lit "completed", 0)
    else none
  if c.stoppedAtEnd then
    ⟨p.deeds, some (lit
      "Download or verification cancelled. Partial downloads can be resumed."), activity⟩
  else if p.ok then
    if !o.activate then ⟨p.deeds, some (lit "Download complete."), activity⟩
    else ⟨p.deeds ++ if c.starts then [.spawned m.id] else [], none, activity⟩
  else
    ⟨p.deeds, some (if p.why.isEmpty then lit "Cannot prepare the model." else p.why), activity⟩

end GeistServe.Jobs
