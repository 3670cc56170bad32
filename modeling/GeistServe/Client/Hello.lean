import GeistServe.Client.Framing
import GeistServe.Geistd.Main
import GeistServe.Json.Reader

/-!
# A hello

What `gd_connect` sends when the client has a token, and what the daemon makes of
the bytes of that header. The token goes through two buffers: one of 128 bytes in
the client's handle, one of 200 for the header, which is printed around it with
`%s`. `Geistd/Handle.lean` has the daemon's hello on a parsed header; `ReadsHeader` is
the way from the bytes to it.
-/

namespace GeistServe.Client

open GeistServe.Lib GeistServe.Geistd GeistServe.Json

/-- The `token` field that `gd_alloc` fills. -/
def gdToken (token : CStr) : CStr := token.take 127

/-- The header of the hello; a client without a token sends none. -/
def gdHello (token : CStr) : Option Bytes :=
  if gdToken token = [] then none
  else some ((lit "\x7b\"op\":\"hello\",\"token\":\"" ++ gdToken token ++ lit "\"\x7d").take 199)

/-- The `hello` of `handle`, from the bytes of a header on. -/
def helloAccepts (token : Option CStr) (hdr : Bytes) : Bool :=
  match jsonParse hdr with
  | none => false
  | some j =>
      decide (j.strdup (j.get 0 (lit "op")) = some (lit "hello")) &&
        helloGood token (j.strdup (j.get 0 (lit "token")))

/-- The header of the frame is what `json_parse` makes of the bytes, as far as
its strings go. -/
def ReadsHeader (f : Frame) (hdr : Bytes) : Prop :=
  match jsonParse hdr with
  | none => f.hdr = none
  | some j => ∃ js, f.hdr = some js ∧
      ∀ key, Geistd.jsonStrdup (jsonGet js key) = j.strdup (j.get 0 (lit key))

end GeistServe.Client
