import GeistServe.Client.Framing
import GeistServe.Json.Writer

/-!
# A chat_send request

What `geistd_chat_send` puts on the wire: a header with the chat and the bound
on the answer, and the messages as a JSON body. Memory for the body is taken to
be there.
-/

namespace GeistServe.Client

open GeistServe.Lib GeistServe.Geistd GeistServe.Json

/-- One message of the body; `sep` is the comma in front of every other one. -/
def chatSendItem (sep : String) (m : Msg) : Bytes :=
  lit sep ++ lit "\x7b\"role\":" ++ gdPutJson (cstr m.role) ++ lit ",\"content\":" ++
    gdPutJson (cstr m.content) ++ lit "\x7d"

def chatSendItems : List Msg → Bytes
  | [] => []
  | m :: ms => chatSendItem "" m ++ ms.flatMap (chatSendItem ",")

def chatSendBody (ms : List Msg) : Bytes :=
  lit "\x7b\"messages\":[" ++ chatSendItems ms ++ lit "]\x7d"

/-- The header goes through a buffer of 120 bytes. -/
def chatSendHeader (id : CStr) (max : Nat) : Bytes :=
  (lit "\x7b\"op\":\"chat_send\",\"chat\":\"" ++ cstr id ++ lit "\",\"max\":" ++
    lit (toString max) ++ lit "\x7d").take 119

def chatSendFrame (id : CStr) (max : Nat) (ms : List Msg) : RawFrame :=
  ⟨chatSendHeader id max, chatSendBody ms⟩

end GeistServe.Client
