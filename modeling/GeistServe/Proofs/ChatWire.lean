import GeistServe.App.Held
import GeistServe.Client.Chat
import GeistServe.Geistd.ChatBody
import GeistServe.Proofs.Framing
import GeistServe.Proofs.Lookup

/-!
# Messages on the wire

The messages of a `chat_send`, from the client's list to the array that the
daemon hands to the runtime. The body that the client writes is the text of a
tree, the daemon's walk over its tokens visits the trees of the messages in
order, and a string that was written by the client's escapes is read back byte
for byte.
-/

namespace GeistServe.Proofs

open GeistServe.Lib GeistServe.Geistd GeistServe.Client GeistServe.Json

/-! ## The walk over a tree -/

/-- What `op_chat_send` reads from the tree of one message. -/
def treeMessage : Tree → SentMsg
  | .obj ms =>
      { role := (lookup (lit "role") ms).bind Tree.str?
        content := (lookup (lit "content") ms).bind Tree.str? }
  | _ => {}

theorem found_strdup {j : Doc} {v : Option Tree} {r : Option Nat} (h : Found j v r) :
    j.strdup r = v.bind Tree.str? := by
  rcases h with ⟨rfl, rfl⟩ | ⟨w, k, rfl, rfl, hnode⟩
  · rfl
  · exact hnode.strdup

theorem node_message {j : Doc} {i : Nat} {v : Tree} (h : Node j i v) :
    ({ role := j.strdup (j.get i (lit "role"))
       content := j.strdup (j.get i (lit "content")) } : SentMsg) = treeMessage v := by
  cases v with
  | obj ms => rw [found_strdup (h.get (lit "role")), found_strdup (h.get (lit "content")), treeMessage]
  | str | prim | arr =>
      rw [h.get_other (by simp [Tree.type]), h.get_other (by simp [Tree.type])]
      rfl

/-- The array that a body gives, by the tree that it is the text of. -/
theorem sentMessages_print {ms : List (Bytes × Tree)} (hms : ValidMembers ms)
    (hcap : (Tree.obj ms).count ≤ JSON_TOK_CAP) :
    sentMessages (Tree.obj ms).print =
      match lookup (lit "messages") ms with
      | some (.arr (x :: xs)) => some ((x :: xs).map treeMessage)
      | _ => none := by
  have hparse := jsonParse_print hms
  rw [if_pos hcap] at hparse
  have hroot := Node.root hms hparse
  rw [sentMessages, if_neg (by simp [Tree.print]), hparse]
  generalize (⟨(Tree.obj ms).print, (Tree.obj ms).toks 0 0 none⟩ : Doc) = j at hroot
  simp only
  rcases hroot.get (lit "messages") with ⟨hl, hg⟩ | ⟨w, k, hl, hg, hnode⟩
  · rw [hl, hg]
  · obtain ⟨t, ht, htype, hsize⟩ := hnode.tok
    rw [hl, hg]
    simp only [ht]
    cases w with
    | str | prim | obj => rw [if_pos (.inl (by rw [htype]; simp [Tree.type]))]
    | arr xs =>
        cases xs with
        | nil => rw [if_pos (.inr (by rw [hsize]; exact Nat.one_pos))]
        | cons x xs =>
            have hitems := hnode.items
            have hlen := hitems.length_eq
            rw [if_neg (by rw [htype, hsize]; simp [Tree.type, Tree.size])]
            have htake : (j.items k).take t.size = j.items k := by
              rw [hsize, Tree.size, ← hlen, List.take_length]
            rw [htake, List.length_map, hsize, Tree.size, hlen, Nat.sub_self, List.replicate_zero,
              List.append_nil]
            refine congrArg some ?_
            generalize j.items k = is at hitems
            generalize x :: xs = ys at hitems
            induction hitems with
            | nil => rfl
            | cons hnode _ ih => rw [List.map_cons, List.map_cons, node_message hnode, ih]

/-! ## Trees as values -/

/-- What the accessors see in a primitive; `num` is `strtod`. -/
def primVal (num : Bytes → Double) : Bytes → JVal
  | 116 :: _ => .bool true
  | 102 :: _ => .bool false
  | 110 :: _ => .null
  | raw => .num (num raw)

mutual

/-- The value of a tree: its strings as they are copied out, its keys as they
stand in the text. -/
def treeVal (num : Bytes → Double) : Tree → JVal
  | .str raw => .str ((unescape raw).takeWhile (· ≠ 0))
  | .prim raw => primVal num raw
  | .arr xs => .arr (itemVals num xs)
  | .obj ms => .obj (memberVals num ms)

def itemVals (num : Bytes → Double) : List Tree → List JVal
  | [] => []
  | x :: xs => treeVal num x :: itemVals num xs

def memberVals (num : Bytes → Double) : List (Bytes × Tree) → Json
  | [] => []
  | (key, v) :: ms => (key, treeVal num v) :: memberVals num ms

end

theorem primVal_cases (num : Bytes → Double) (raw : Bytes) :
    (∃ b, primVal num raw = .bool b) ∨ primVal num raw = .null ∨ ∃ n, primVal num raw = .num n := by
  unfold primVal
  split
  · exact .inl ⟨_, rfl⟩
  · exact .inl ⟨_, rfl⟩
  · exact .inr (.inl rfl)
  · exact .inr (.inr ⟨_, rfl⟩)

theorem itemVals_eq (num : Bytes → Double) (xs : List Tree) :
    itemVals num xs = xs.map (treeVal num) := by
  induction xs with
  | nil => rfl
  | cons x xs ih => rw [itemVals, List.map_cons, ih]

theorem jsonGet_memberVals (num : Bytes → Double) (key : String) (ms : List (Bytes × Tree)) :
    jsonGet (memberVals num ms) key = (lookup (lit key) ms).map (treeVal num) := by
  induction ms with
  | nil => rfl
  | cons m ms ih =>
      obtain ⟨k, v⟩ := m
      by_cases hk : k = lit key
      · rw [hk, lookup_cons_eq, memberVals, jsonGet, List.find?_cons_of_pos (by simp)]
        rfl
      · rw [lookup_cons_ne v ms hk, ← ih, memberVals, jsonGet,
          List.find?_cons_of_neg (by simpa using hk)]
        rfl

theorem jsonStrdup_treeVal (num : Bytes → Double) (v : Option Tree) :
    jsonStrdup (v.map (treeVal num)) = v.bind Tree.str? := by
  cases v with
  | none => rfl
  | some v =>
      cases v with
      | str | arr | obj => rfl
      | prim raw =>
          show jsonStrdup (some (primVal num raw)) = none
          rcases primVal_cases num raw with ⟨b, h⟩ | h | ⟨n, h⟩ <;> rw [h] <;> rfl

/-- The values that `op_chat_send` works on are those of the text. -/
theorem bodyMessages_print (num : Bytes → Double) {ms : List (Bytes × Tree)} (hms : ValidMembers ms)
    (hcap : (Tree.obj ms).count ≤ JSON_TOK_CAP) (bytes : Bytes) :
    bodyMessages ⟨bytes, some (memberVals num ms)⟩ =
      (sentMessages (Tree.obj ms).print).map (List.map SentMsg.whole) := by
  rw [sentMessages_print hms hcap, bodyMessages]
  simp only [Option.bind_some, jsonGet_memberVals]
  cases lookup (lit "messages") ms with
  | none => rfl
  | some v =>
      cases v with
      | str | obj => rfl
      | prim raw =>
          rw [Option.map_some, treeVal]
          rcases primVal_cases num raw with ⟨b, h⟩ | h | ⟨n, h⟩ <;> rw [h] <;> rfl
      | arr xs =>
          cases xs with
          | nil => rfl
          | cons x xs =>
              simp only [Option.map_some, treeVal, itemVals_eq, List.map_map]
              rw [if_neg (by simp)]
              refine congrArg some (List.map_congr_left fun v _ => ?_)
              -- one message at a time, as its tree says
              simp only [Function.comp_apply]
              cases v with
              | obj ms =>
                  simp only [treeVal, jsonGet_memberVals, jsonStrdup_treeVal, treeMessage,
                    SentMsg.whole] <;> rfl
              | str | arr => rfl
              | prim raw =>
                  rw [treeVal]
                  rcases primVal_cases num raw with ⟨b, h⟩ | h | ⟨n, h⟩ <;> rw [h] <;> rfl

/-! ## The client's body -/

/-- The tree of a message. -/
def msgTree (m : Msg) : Tree :=
  .obj [(lit "role", .str (m.role.flatMap gdEscape)), (lit "content", .str (m.content.flatMap gdEscape))]

def bodyTree (ms : List Msg) : List (Bytes × Tree) :=
  [(lit "messages", .arr (ms.map msgTree))]

/-- A message of C strings. -/
def Plain (m : Msg) : Prop := (0 : UInt8) ∉ m.role ∧ (0 : UInt8) ∉ m.content

theorem chatSendItem_print {sep : String} {m : Msg} (hm : Plain m) :
    chatSendItem sep m = lit sep ++ (msgTree m).print := by
  have hrole : lit "\x7b\"role\":" = 123 :: 34 :: (lit "role" ++ [34, 58]) := by decide
  have hcontent : lit ",\"content\":" = 44 :: 34 :: (lit "content" ++ [34, 58]) := by decide
  have hend : lit "\x7d" = [125] := by decide
  rw [chatSendItem, cstr_eq hm.1, cstr_eq hm.2, hrole, hcontent, hend]
  simp [msgTree, Tree.print, printMembers, gdPutJson]

theorem items_print (ms : List Msg) (hms : ∀ m ∈ ms, Plain m) :
    ms.flatMap (chatSendItem ",") = printItems [44] (ms.map msgTree) := by
  have hcomma : lit "," = [44] := by decide
  induction ms with
  | nil => rfl
  | cons m ms ih =>
      rw [List.flatMap_cons, List.map_cons, printItems, chatSendItem_print (hms m List.mem_cons_self),
        ih fun n hn => hms n (List.mem_cons_of_mem _ hn), hcomma, List.append_assoc]

theorem chatSendItems_print (ms : List Msg) (hms : ∀ m ∈ ms, Plain m) :
    chatSendItems ms = printItems [] (ms.map msgTree) := by
  cases ms with
  | nil => rfl
  | cons m ms =>
      rw [chatSendItems, List.map_cons, printItems, chatSendItem_print (hms m List.mem_cons_self),
        items_print ms fun n hn => hms n (List.mem_cons_of_mem _ hn)]
      rfl

theorem chatSendBody_print (ms : List Msg) (hms : ∀ m ∈ ms, Plain m) :
    chatSendBody ms = (Tree.obj (bodyTree ms)).print := by
  have hopen : lit "\x7b\"messages\":[" = 123 :: 34 :: (lit "messages" ++ [34, 58, 91]) := by decide
  have hend : lit "]\x7d" = [93, 125] := by decide
  rw [chatSendBody, chatSendItems_print ms hms, hopen, hend]
  simp [bodyTree, Tree.print, printMembers]

theorem quotable_plain {raw : Bytes} (h : ∀ c ∈ raw, c ≠ 0 ∧ c ≠ 34 ∧ c ≠ 92) : Quotable raw := by
  induction raw with
  | nil => exact .nil
  | cons c raw ih =>
      exact .plain (h c List.mem_cons_self) (ih fun d hd => h d (List.mem_cons_of_mem _ hd))

theorem bodyTree_valid (ms : List Msg) : ValidMembers (bodyTree ms) := by
  refine ⟨quotable_plain (by decide), ?_, trivial⟩
  show ValidItems (ms.map msgTree)
  induction ms with
  | nil => exact trivial
  | cons m ms ih =>
      refine ⟨⟨quotable_plain (by decide), ?_, quotable_plain (by decide), ?_, trivial⟩, ih⟩
      · exact (Escapes.flatMap gdEscape_escapes m.role).1
      · exact (Escapes.flatMap gdEscape_escapes m.content).1

/-- Three tokens for the list, five for each message. -/
theorem bodyTree_count (ms : List Msg) : (Tree.obj (bodyTree ms)).count = 3 + 5 * ms.length := by
  have hitems : countItems (ms.map msgTree) = 5 * ms.length := by
    induction ms with
    | nil => rfl
    | cons m ms ih =>
        rw [List.map_cons, countItems, ih, List.length_cons]
        show 5 + 5 * ms.length = 5 * (ms.length + 1)
        omega
  rw [bodyTree, Tree.count, countMembers, Tree.count, hitems, countMembers]
  omega

theorem treeMessage_msgTree {m : Msg} (hm : Plain m) :
    treeMessage (msgTree m) = ⟨some m.role, some m.content⟩ := by
  have hrole : lookup (lit "role") [(lit "role", Tree.str (m.role.flatMap gdEscape)),
      (lit "content", Tree.str (m.content.flatMap gdEscape))] = _ := lookup_cons_eq _ _ _
  have hcontent : lookup (lit "content") [(lit "role", Tree.str (m.role.flatMap gdEscape)),
      (lit "content", Tree.str (m.content.flatMap gdEscape))] = _ :=
    (lookup_cons_ne _ _ (by decide)).trans (lookup_cons_eq _ _ _)
  have hread : ∀ s : Bytes, (0 : UInt8) ∉ s → (Tree.str (s.flatMap gdEscape)).str? = some s := by
    intro s hs
    rw [Tree.str?, (Escapes.flatMap gdEscape_escapes s).2]
    exact congrArg some (cstr_eq hs)
  rw [msgTree, treeMessage, hrole, hcontent, Option.bind_some, Option.bind_some, hread _ hm.1,
    hread _ hm.2]

/-- The request of the value model is the one that the client writes. -/
theorem sendFrame_doc (num : Bytes → Double) (id : CStr) (max : Nat) {ms : List Msg}
    (hms : ∀ m ∈ ms, Plain m) :
    (App.sendFrame id max ms).body.doc = some (memberVals num (bodyTree ms)) := by
  have hval : ∀ s : Bytes, (0 : UInt8) ∉ s →
      treeVal num (.str (s.flatMap gdEscape)) = .str s := by
    intro s hs
    rw [treeVal, (Escapes.flatMap gdEscape_escapes s).2]
    exact congrArg JVal.str (cstr_eq hs)
  have hmsg : ∀ m ∈ ms, App.msgJson m = treeVal num (msgTree m) := by
    intro m hm
    simp only [msgTree, treeVal, memberVals] at hval ⊢
    rw [hval _ (hms m hm).1, hval _ (hms m hm).2]
    rfl
  show some [(lit "messages", JVal.arr (ms.map App.msgJson))] = _
  rw [List.map_congr_left hmsg, bodyTree, memberVals, treeVal, itemVals_eq, List.map_map]
  rfl

/-! ## Main result -/

theorem chatSendFrame_sendable {id : CStr} {max : Nat} {ms : List Msg}
    (hbody : (chatSendBody ms).length ≤ BODY_CAP) : Sendable (chatSendFrame id max ms) := by
  have hlen : (chatSendHeader id max).length ≤ 119 := List.length_take_le _ _
  have hcap : HDR_CAP = 65536 := rfl
  refine ⟨⟨?_, by show (chatSendHeader id max).length ≤ _; omega, hbody⟩, fun hnul => ?_⟩
  · show 0 < (chatSendHeader id max).length
    have hend : (lit "\x7d").length = 1 := by decide
    rw [chatSendHeader, List.length_take, List.length_append, hend]
    omega
  · have hmem := List.mem_of_mem_take hnul
    simp only [List.mem_append] at hmem
    rcases hmem with (((h | h) | h) | h) | h
    · exact absurd h (by decide)
    · exact absurd (List.mem_takeWhile_imp h) (by decide)
    · exact absurd h (by decide)
    · exact absurd (decimal_digits max 0 h).1 (by decide)
    · exact absurd h (by decide)

/-- A chat_send comes through: however the calls are cut, the array of messages
that the daemon hands to the runtime for the client's request is the client's
list. -/
theorem chat_send_comes_through (ms : List Msg) (hne : ms ≠ []) (hplain : ∀ m ∈ ms, Plain m)
    (hbody : (chatSendBody ms).length ≤ BODY_CAP) (htok : 3 + 5 * ms.length ≤ JSON_TOK_CAP)
    (id : CStr) (max : Nat) :
    sentMessages (chatSendBody ms) = some (ms.map fun m => ⟨some m.role, some m.content⟩) ∧
      ∀ calls inp, Flows waited false calls →
        stream retried inp = (gdSendFrame ([], calls) (chatSendFrame id max ms)).1.1 →
        (framesRead inp).map (fun f => sentMessages f.body) =
          [some (ms.map fun m => ⟨some m.role, some m.content⟩)] := by
  have hsent : sentMessages (chatSendBody ms) =
      some (ms.map fun m => ⟨some m.role, some m.content⟩) := by
    rw [chatSendBody_print ms hplain, sentMessages_print (bodyTree_valid ms)
      (by rw [bodyTree_count]; exact htok)]
    have hlookup : lookup (lit "messages") (bodyTree ms) = some (.arr (ms.map msgTree)) :=
      lookup_cons_eq _ _ _
    rw [hlookup]
    cases ms with
    | nil => exact (hne rfl).elim
    | cons m ms =>
        refine congrArg some ?_
        rw [← List.map_cons, List.map_map]
        exact List.map_congr_left fun n hn => treeMessage_msgTree (hplain n hn)
  refine ⟨hsent, fun calls inp hflows hs => ?_⟩
  have hread : framesRead inp = [chatSendFrame id max ms] := by
    refine (framesRead_gdSend (fun f hf => ?_) ?_).2 hflows
    · rw [List.mem_singleton] at hf
      rw [hf]
      exact chatSendFrame_sendable hbody
    · rw [hs, writeItems]
      cases gdSendFrame ([], calls) (chatSendFrame id max ms) with
      | mk g ok => cases ok <;> rfl
  rw [hread, List.map_singleton]
  exact congrArg (fun r => [r]) hsent

/-- A message with a quote, a newline and a letter of two bytes. -/
theorem chat_send_comes_through_once :
    sentMessages (chatSendBody [⟨lit "user", [34, 10, 195, 169]⟩]) =
      some [⟨some (lit "user"), some [34, 10, 195, 169]⟩] ∧
    (framesRead [.bytes (gdSendFrame ([], []) (chatSendFrame (lit "0f")  8
      [⟨lit "user", [34, 10, 195, 169]⟩])).1.1]).map (fun f => sentMessages f.body) =
      [some [⟨some (lit "user"), some [34, 10, 195, 169]⟩]] := by
  have h := chat_send_comes_through [⟨lit "user", [34, 10, 195, 169]⟩] (by decide)
    (fun m hm => by
      rw [List.mem_singleton] at hm
      subst hm
      exact ⟨by decide, by decide⟩)
    (by decide) (by decide) (lit "0f") 8
  refine ⟨h.1, h.2 [] _ (fun c hc => absurd hc List.not_mem_nil) ?_⟩
  rw [stream]
  split
  · next hnil => exact hnil.symm
  · exact List.append_nil _

end GeistServe.Proofs
