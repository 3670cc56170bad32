import GeistServe.Geistd.Chat
import GeistServe.Json.Reader

/-!
# The body of a chat_send

The front of `op_chat_send`, from the bytes of the body to the array of messages
for `geistr_chat_send`. A role or a content that is not a string is a null
pointer in the array, and so is every place that the walk does not reach.
-/

namespace GeistServe.Geistd

open GeistServe.Lib GeistServe.Json

/-- A `geistr_message`. -/
structure SentMsg where
  role : Option CStr := none
  content : Option CStr := none
  deriving DecidableEq

/-- The array that is handed to `geistr_chat_send`; `none` when the body is
refused. -/
def sentMessages (body : Bytes) : Option (List SentMsg) :=
  match if body = [] then none else jsonParse body with
  | none => none
  | some m =>
      match m.get 0 (lit "messages") with
      | none => none
      | some list =>
          match m.tok[list]? with
          | none => none
          | some t =>
              if t.type ≠ .array ∨ t.size < 1 then none
              else
                let msgs := ((m.items list).take t.size).map fun i =>
                  { role := m.strdup (m.get i (lit "role"))
                    content := m.strdup (m.get i (lit "content")) : SentMsg }
                some (msgs ++ List.replicate (t.size - msgs.length) {})

/-- A message with both of its parts. -/
def SentMsg.whole (m : SentMsg) : Option Msg :=
  match m.role, m.content with
  | some role, some content => some ⟨role, content⟩
  | _, _ => none

end GeistServe.Geistd
