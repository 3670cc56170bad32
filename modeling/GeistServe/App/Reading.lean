import GeistServe.App.Proxy
import GeistServe.Json.Reader

/-!
# What a client reads in a response

A client of the app's three ways to answer: it takes the head of a response to its
empty line, and by the head the rest is a stream of lines, a stream of server-sent
events, or one body of the length that is told. A `View` is what it has then: the
content, put together, and the number of events that end a response. A response that
breaks off or does not parse has no view.
-/

namespace GeistServe.App

open GeistServe.Lib GeistServe.Geistd GeistServe.Json

/-- The content of a response, and how often it ends. -/
@[ext] structure View where
  content : Bytes := []
  ends : Nat := 0
  deriving DecidableEq

def View.append (v w : View) : View := ⟨v.content ++ w.content, v.ends + w.ends⟩

/-! ## Lines -/

/-- The lines of a head, to the first empty one, and what is behind it. The lines keep
their carriage return. -/
def readHead : List Bytes → Bytes → Bytes → Option (List Bytes × Bytes)
  | _, _, [] => none
  | ls, line, c :: rest =>
      if c = newline then
        if line = [13] then some (ls, rest) else readHead (ls ++ [line]) [] rest
      else readHead ls (line ++ [c]) rest

/-- The lines of a body; the last one has to be complete. -/
def bodyLines : Bytes → Bytes → Option (List Bytes)
  | line, [] => if line = [] then some [] else none
  | line, c :: rest =>
      if c = newline then (bodyLines [] rest).map (line :: ·) else bodyLines (line ++ [c]) rest

/-- What the events of a body make together. -/
def readEvents (event : Bytes → Option View) : List Bytes → Option View
  | [] => some {}
  | l :: ls => (event l).bind fun v => (readEvents event ls).map v.append

/-! ## Events -/

/-- The token is the literal `true`. -/
def tokTrue (j : Doc) (t : Option Nat) : Bool :=
  (t.bind (j.tok[·]?)).any fun t => decide (j.text t = lit "true")

/-- A line of the app's stream: `response` holds text, `done` and `error` end it. -/
def appEvent (line : Bytes) : Option View :=
  (jsonParse line).map fun j =>
    { content := (j.strdup (j.get 0 (lit "response"))).getD []
      ends := if tokTrue j (j.get 0 (lit "done")) ∨ (j.get 0 (lit "error")).isSome then 1 else 0 }

/-- The text under `part` in the choices of a completion. -/
def choiceText (j : Doc) (part : Bytes) : Bytes :=
  match j.get 0 (lit "choices") with
  | some list =>
      (j.items list).flatMap fun choice =>
        ((j.get choice part).bind fun d => j.strdup (j.get d (lit "content"))).getD []
  | none => []

/-- A line of a stream of server-sent events: a comment or an empty line, the mark of
the end, or a chunk; an error ends the stream too. -/
def streamEvent (line : Bytes) : Option View :=
  if line = [] ∨ line.head? = some 58 then some {}
  else if line = lit "data: [DONE]" then some { ends := 1 }
  else if (lit "data: ").isPrefixOf line then
    (jsonParse (line.drop 6)).map fun j =>
      { content := choiceText j (lit "delta")
        ends := if (j.get 0 (lit "error")).isSome then 1 else 0 }
  else none

/-- A body that has been read to its end. -/
def wholeEvent (body : Bytes) : Option View :=
  (jsonParse body).map fun j => { content := choiceText j (lit "message"), ends := 1 }

/-! ## Responses -/

def view (sent : Bytes) : Option View :=
  (readHead [] [] sent).bind fun (head, body) =>
    if lit "Content-Type: application/x-ndjson\r" ∈ head then
      (bodyLines [] body).bind (readEvents appEvent)
    else if lit "Content-Type: text/event-stream\r" ∈ head then
      (bodyLines [] body).bind (readEvents streamEvent)
    else if lit "Content-Length: " ++ decimal body.length ++ lit "\r" ∈ head then wholeEvent body
    else none

end GeistServe.App
