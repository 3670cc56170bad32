import GeistServe.Proofs.Events
import GeistServe.Proofs.FollowUp

/-!
# The texts of a response

Everything that the three ways to answer write, each text beside the tree that a client reads in it:
the events of the app's page, the chunks of a stream and what ends it, a body of one piece, and the
errors. A text that a buffer has taken is an event with its content and its number of ends.
-/

namespace GeistServe.Proofs

open GeistServe.Lib GeistServe.Geistd GeistServe.App GeistServe.Json

/-! ## Trees that are written -/

mutual

/-- A valid tree without control characters in its text. -/
def TidyTree : Tree → Prop
  | .str raw => Quotable raw ∧ Clean raw
  | .prim raw => IsPrim raw
  | .arr xs => TidyItems xs
  | .obj ms => TidyMembers ms

def TidyItems : List Tree → Prop
  | [] => True
  | x :: xs => TidyTree x ∧ TidyItems xs

def TidyMembers : List (Bytes × Tree) → Prop
  | [] => True
  | (key, v) :: ms => (Quotable key ∧ Clean key) ∧ TidyTree v ∧ TidyMembers ms

end

mutual

theorem TidyTree.valid : ∀ v : Tree, TidyTree v → v.Valid
  | .str _, h => h.1
  | .prim _, h => h
  | .arr xs, h => TidyItems.valid xs h
  | .obj ms, h => TidyMembers.valid ms h

theorem TidyItems.valid : ∀ xs : List Tree, TidyItems xs → ValidItems xs
  | [], _ => trivial
  | x :: xs, h => ⟨TidyTree.valid x h.1, TidyItems.valid xs h.2⟩

theorem TidyMembers.valid : ∀ ms : List (Bytes × Tree), TidyMembers ms → ValidMembers ms
  | [], _ => trivial
  | (_, v) :: ms, h => ⟨h.1.1, TidyTree.valid v h.2.1, TidyMembers.valid ms h.2.2⟩

end

theorem Clean.cons {c : UInt8} {s : Bytes} (hc : 32 ≤ c) (hs : Clean s) : Clean (c :: s) := by
  intro d hd
  rcases List.mem_cons.mp hd with rfl | h
  · exact hc
  · exact hs d h

theorem clean_nil : Clean [] := fun _ h => absurd h List.not_mem_nil

/-- A text between two brackets. -/
theorem Clean.within {a b : UInt8} {s : Bytes} (h : Clean s) (ha : 32 ≤ a) (hb : 32 ≤ b) :
    Clean (a :: (s ++ [b])) :=
  .cons ha (h.append (.cons hb clean_nil))

mutual

theorem TidyTree.clean : ∀ v : Tree, TidyTree v → Clean v.print
  | .str _, h => h.2.within (by decide) (by decide)
  | .prim _, h => fun c hc => UInt8.le_of_lt (h.2 c hc).1
  | .arr xs, h => (TidyItems.clean [] clean_nil xs h).within (by decide) (by decide)
  | .obj ms, h => (TidyMembers.clean [] clean_nil ms h).within (by decide) (by decide)

theorem TidyItems.clean (sep : Bytes) (hsep : Clean sep) :
    ∀ xs : List Tree, TidyItems xs → Clean (printItems sep xs)
  | [], _ => clean_nil
  | x :: xs, h =>
      hsep.append ((TidyTree.clean x h.1).append
        (TidyItems.clean [44] (.cons (by decide) clean_nil) xs h.2))

theorem TidyMembers.clean (sep : Bytes) (hsep : Clean sep) :
    ∀ ms : List (Bytes × Tree), TidyMembers ms → Clean (printMembers sep ms)
  | [], _ => clean_nil
  | (_, v) :: ms, h =>
      hsep.append (.cons (by decide) (h.1.2.append (.cons (by decide) (.cons (by decide)
        ((TidyTree.clean v h.2.1).append
          (TidyMembers.clean [44] (.cons (by decide) clean_nil) ms h.2.2))))))

end

theorem tidy_text {raw : Bytes} (h : ∀ c ∈ raw, c ≠ 0 ∧ c ≠ 34 ∧ c ≠ 92 ∧ 32 ≤ c) :
    Quotable raw ∧ Clean raw :=
  ⟨quotable_plain fun c hc => ⟨(h c hc).1, (h c hc).2.1, (h c hc).2.2.1⟩,
    fun c hc => (h c hc).2.2.2⟩

theorem tidy_quoted (s : Bytes) : TidyTree (.str (s.flatMap gdEscape)) :=
  ⟨(Escapes.flatMap gdEscape_escapes s).1, clean_quoted s⟩

theorem quoted_str {s : Bytes} (h : (0 : UInt8) ∉ s) :
    (Tree.str (s.flatMap gdEscape)).str? = some s := by
  rw [Tree.str?, (Escapes.flatMap gdEscape_escapes s).2]
  exact congrArg some (cstr_eq h)

theorem isPrim_flag (b : Bool) : IsPrim (flag b) := by
  cases b
  · exact ⟨⟨_, rfl, by decide⟩, by decide⟩
  · exact ⟨⟨_, rfl, by decide⟩, by decide⟩

theorem isPrim_taken (n : Nat) : IsPrim (taken n) := by
  unfold taken
  split
  · exact ⟨⟨_, rfl, by decide⟩, by decide⟩
  · exact isPrim_decimal n

/-! ## Events -/

theorem Writes.of_eq {b b' : Buffer} {s t : Bytes} (h : Writes b b' s) (heq : s = t) :
    Writes b b' t := heq ▸ h

section Events

variable {ms : List (Bytes × Tree)}

/-- An event of the app's stream. -/
theorem app_body (htidy : TidyMembers ms) (hcap : (Tree.obj ms).count ≤ JSON_TOK_CAP)
    {done : Option Bytes} (hdone : lookup (lit "done") ms = done.map Tree.prim) :
    Body appEvent ((Tree.obj ms).print ++ [newline])
      ⟨((lookup (lit "response") ms).bind Tree.str?).getD [],
        if done = some (lit "true") ∨ (lookup (lit "error") ms).isSome then 1 else 0⟩ :=
  .line (TidyTree.clean (.obj ms) htidy)
    (appEvent_print (TidyMembers.valid ms htidy) hcap hdone)

/-- A chunk of a stream of server-sent events, with the empty line behind it. -/
theorem stream_body (htidy : TidyMembers ms) (hcap : (Tree.obj ms).count ≤ JSON_TOK_CAP)
    {xs : Option (List Tree)} (hxs : lookup (lit "choices") ms = xs.map Tree.arr) :
    Body streamEvent (lit "data: " ++ (Tree.obj ms).print ++ [newline] ++ [newline])
      ⟨(xs.getD []).flatMap (Tree.choice (lit "delta")),
        if (lookup (lit "error") ms).isSome then 1 else 0⟩ := by
  have hdata : Clean (lit "data: ") := by
    unfold Clean
    decide
  have hchunk := Body.line (hdata.append (TidyTree.clean (.obj ms) htidy))
    (streamEvent_print (TidyMembers.valid ms htidy) hcap hxs)
  have hempty : Body streamEvent [newline] {} := .line clean_nil rfl
  have h := hchunk.append hempty
  rw [View.append_nil] at h
  exact h

end Events

/-! ## The texts of the app's stream -/

theorem printMembers_join {sep : Bytes} (m : Bytes × Tree) (ms ms' : List (Bytes × Tree)) :
    printMembers sep (m :: ms ++ ms') = printMembers sep (m :: ms) ++ printMembers [44] ms' := by
  induction ms generalizing sep m with
  | nil =>
      obtain ⟨key, v⟩ := m
      show printMembers sep ((key, v) :: ms') = printMembers sep [(key, v)] ++ printMembers [44] ms'
      simp only [printMembers, List.append_nil, List.append_assoc, List.cons_append]
  | cons m' ms ih =>
      obtain ⟨key, v⟩ := m
      have h : printMembers [44] (m' :: (ms ++ ms')) =
          printMembers [44] (m' :: ms) ++ printMembers [44] ms' := ih m'
      show sep ++ (34 :: (key ++ 34 :: 58 :: (v.print ++ printMembers [44] (m' :: (ms ++ ms'))))) =
        sep ++ (34 :: (key ++ 34 :: 58 :: (v.print ++ printMembers [44] (m' :: ms)))) ++
          printMembers [44] ms'
      rw [h]
      simp only [List.append_assoc, List.cons_append]

def responseTree (text : Bytes) : List (Bytes × Tree) :=
  [(lit "response", .str (text.flatMap gdEscape)), (lit "done", .prim (lit "false"))]

theorem response_print (text : Bytes) :
    lit "\x7b\"response\":" ++ (34 :: (text.flatMap gdEscape ++ [34])) ++ lit ",\"done\":false\x7d\n" =
      (Tree.obj (responseTree text)).print ++ [newline] := by
  have hfront : lit "\x7b\"response\":" = 123 :: 34 :: (lit "response" ++ [34, 58]) := by decide
  have hback : lit ",\"done\":false\x7d\n" =
      44 :: 34 :: (lit "done" ++ 34 :: 58 :: (lit "false" ++ [125, newline])) := by decide
  rw [hfront, hback]
  simp only [responseTree, Tree.print, printMembers, List.append_assoc, List.cons_append,
    List.nil_append]

theorem response_body {text : Bytes} (h : (0 : UInt8) ∉ text) :
    Body appEvent ((Tree.obj (responseTree text)).print ++ [newline]) ⟨text, 0⟩ := by
  have htidy : TidyMembers (responseTree text) :=
    ⟨tidy_text (by decide), tidy_quoted text, tidy_text (by decide), isPrim_flag false, trivial⟩
  have hdone : lookup (lit "done") (responseTree text) =
      (some (lit "false")).map Tree.prim :=
    (lookup_cons_ne _ _ (by decide)).trans (lookup_cons_eq _ _ _)
  have hresponse : lookup (lit "response") (responseTree text) = some _ := lookup_cons_eq _ _ _
  have herror : lookup (lit "error") (responseTree text) = none :=
    (lookup_cons_ne _ _ (by decide)).trans (lookup_cons_ne _ _ (by decide))
  have hbody := app_body htidy (Nat.le_of_ble_eq_true rfl) hdone
  rw [hresponse, herror, Option.bind_some, quoted_str h, if_neg (by decide)] at hbody
  exact hbody

theorem lookup_none {key : Bytes} {ms : List (Bytes × Tree)} (h : key ∉ ms.map Prod.fst) :
    lookup key ms = none := by
  rw [lookup, List.find?_eq_none.mpr]
  · rfl
  · intro m hm heq
    exact h (List.mem_map.mpr ⟨m, hm, of_decide_eq_true heq⟩)

/-- An event with neither text nor end. -/
theorem quiet_body {ms : List (Bytes × Tree)} (htidy : TidyMembers ms)
    (hcap : (Tree.obj ms).count ≤ JSON_TOK_CAP)
    (hkeys : ∀ key ∈ [lit "response", lit "done", lit "error"], key ∉ ms.map Prod.fst) :
    Body appEvent ((Tree.obj ms).print ++ [newline]) {} := by
  have hnone (key : Bytes) (h : key ∈ [lit "response", lit "done", lit "error"]) :
      lookup key ms = none := lookup_none (hkeys key h)
  have hdone : lookup (lit "done") ms = (none : Option Bytes).map Tree.prim :=
    hnone (lit "done") (by simp)
  have hbody := app_body htidy hcap hdone
  rw [hnone (lit "response") (by simp), hnone (lit "error") (by simp), if_neg (by decide)] at hbody
  exact hbody

theorem thinking_body (text : Bytes) :
    Body appEvent (lit "\x7b\"thinking\":" ++ (34 :: (text.flatMap gdEscape ++ [34])) ++ lit "\x7d\n")
      {} := by
  have hfront : lit "\x7b\"thinking\":" = 123 :: 34 :: (lit "thinking" ++ [34, 58]) := by decide
  have hback : lit "\x7d\n" = [125, newline] := by decide
  have hbody : Body appEvent
      ((Tree.obj [(lit "thinking", .str (text.flatMap gdEscape))]).print ++ [newline]) {} :=
    quiet_body ⟨tidy_text (by decide), tidy_quoted text, trivial⟩ (Nat.le_of_ble_eq_true rfl)
      (by simp only [List.map_cons, List.map_nil]; decide)
  rw [hfront, hback]
  simp only [Tree.print, printMembers, List.append_assoc, List.cons_append, List.nil_append]
    at hbody ⊢
  exact hbody

/-- A phase with a count of tokens. -/
theorem phase_body {phase : Bytes} (hphase : Quotable phase ∧ Clean phase) (n : Nat) :
    Body appEvent (lit "\x7b\"phase\":\"" ++ phase ++ lit "\",\"tokens\":" ++ decimal n ++ lit "\x7d\n")
      {} := by
  have hfront : lit "\x7b\"phase\":\"" = 123 :: 34 :: (lit "phase" ++ [34, 58, 34]) := by decide
  have hmiddle : lit "\",\"tokens\":" = 34 :: 44 :: 34 :: (lit "tokens" ++ [34, 58]) := by decide
  have hback : lit "\x7d\n" = [125, newline] := by decide
  have hbody : Body appEvent ((Tree.obj
      [(lit "phase", .str phase), (lit "tokens", .prim (decimal n))]).print ++ [newline]) {} :=
    quiet_body ⟨tidy_text (by decide), hphase, tidy_text (by decide), isPrim_decimal n, trivial⟩
      (Nat.le_of_ble_eq_true rfl) (by simp only [List.map_cons, List.map_nil]; decide)
  rw [hfront, hmiddle, hback]
  simp only [Tree.print, printMembers, List.append_assoc, List.cons_append, List.nil_append]
    at hbody ⊢
  exact hbody

theorem preparing_body : Body appEvent (lit "\x7b\"phase\":\"preparing\"\x7d\n") {} := by
  have heq : lit "\x7b\"phase\":\"preparing\"\x7d\n" =
      (Tree.obj [(lit "phase", .str (lit "preparing"))]).print ++ [newline] := by decide
  rw [heq]
  exact quiet_body ⟨tidy_text (by decide), tidy_text (by decide), trivial⟩
    (Nat.le_of_ble_eq_true rfl) (by decide)

theorem heartbeat_body : Body appEvent (lit "\x7b\"heartbeat\":true\x7d\n") {} := by
  have heq : lit "\x7b\"heartbeat\":true\x7d\n" =
      (Tree.obj [(lit "heartbeat", .prim (lit "true"))]).print ++ [newline] := by decide
  rw [heq]
  exact quiet_body ⟨tidy_text (by decide), isPrim_flag true, trivial⟩
    (Nat.le_of_ble_eq_true rfl) (by decide)

/-- An error ends the app's stream. -/
theorem error_body (text : Bytes) :
    Body appEvent (lit "\x7b\"error\":" ++ (34 :: (text.flatMap gdEscape ++ [34])) ++ lit "\x7d\n")
      ⟨[], 1⟩ := by
  have hfront : lit "\x7b\"error\":" = 123 :: 34 :: (lit "error" ++ [34, 58]) := by decide
  have hback : lit "\x7d\n" = [125, newline] := by decide
  have hdone : lookup (lit "done") [(lit "error", Tree.str (text.flatMap gdEscape))] =
      (none : Option Bytes).map Tree.prim := lookup_cons_ne _ _ (by decide)
  have hresponse : lookup (lit "response") [(lit "error", Tree.str (text.flatMap gdEscape))] =
      none := lookup_cons_ne _ _ (by decide)
  have htidy : TidyMembers [(lit "error", Tree.str (text.flatMap gdEscape))] :=
    ⟨tidy_text (by decide), tidy_quoted text, trivial⟩
  have hbody := app_body htidy (Nat.le_of_ble_eq_true rfl) hdone
  rw [hresponse, lookup_cons_eq, if_pos (.inr rfl)] at hbody
  rw [hfront, hback]
  simp only [Tree.print, printMembers, List.append_assoc, List.cons_append, List.nil_append]
    at hbody ⊢
  exact hbody

/-- The last event of a response. -/
def finalTree (q : Request) (p : Proxy) (s : RunStats) : List (Bytes × Tree) :=
  [(lit "done", .prim (lit "true")), (lit "eval_count", .prim (decimal s.tokens)),
   (lit "eval_duration", .prim (decimal q.generationNs)),
   (lit "total_duration", .prim (decimal q.totalNs)),
   (lit "prompt_eval_count", .prim (decimal s.promptTokens)),
   (lit "reused", .prim (decimal s.reused)), (lit "limited", .prim (flag s.limited)),
   (lit "reasoning", .prim (flag p.reasoning)), (lit "no_answer", .prim (flag (!p.visible))),
   (lit "max_tokens", .prim (decimal s.maxTokens)),
   (lit "first_model_text_ns", .prim (taken p.first)),
   (lit "first_answer_ns", .prim (if p.visible then taken p.firstAnswer else lit "-1"))]

section

variable {l₁ l₂ l₃ l₄ l₅ l₆ l₇ l₈ l₉ l₁₀ l₁₁ l₁₂ : Bytes}

/-- The literal parts of the last event are variables here, so that none is compared with another. -/
theorem final_spelled (q : Request) (p : Proxy) (s : RunStats)
    (h₁ : l₁ = 123 :: 34 :: (lit "done" ++ 34 :: 58 :: (lit "true" ++
      44 :: 34 :: (lit "eval_count" ++ [34, 58]))))
    (h₂ : l₂ = 44 :: 34 :: (lit "eval_duration" ++ [34, 58]))
    (h₃ : l₃ = 44 :: 34 :: (lit "total_duration" ++ [34, 58]))
    (h₄ : l₄ = 44 :: 34 :: (lit "prompt_eval_count" ++ [34, 58]))
    (h₅ : l₅ = 44 :: 34 :: (lit "reused" ++ [34, 58]))
    (h₆ : l₆ = 44 :: 34 :: (lit "limited" ++ [34, 58]))
    (h₇ : l₇ = 44 :: 34 :: (lit "reasoning" ++ [34, 58]))
    (h₈ : l₈ = 44 :: 34 :: (lit "no_answer" ++ [34, 58]))
    (h₉ : l₉ = 44 :: 34 :: (lit "max_tokens" ++ [34, 58]))
    (h₁₀ : l₁₀ = 44 :: 34 :: (lit "first_model_text_ns" ++ [34, 58]))
    (h₁₁ : l₁₁ = 44 :: 34 :: (lit "first_answer_ns" ++ [34, 58]))
    (h₁₂ : l₁₂ = [125, newline]) :
    l₁ ++ decimal s.tokens ++ l₂ ++ decimal q.generationNs ++ l₃ ++ decimal q.totalNs ++
      l₄ ++ decimal s.promptTokens ++ l₅ ++ decimal s.reused ++ l₆ ++ flag s.limited ++
      l₇ ++ flag p.reasoning ++ l₈ ++ flag (!p.visible) ++ l₉ ++ decimal s.maxTokens ++
      l₁₀ ++ taken p.first ++ l₁₁ ++ (if p.visible then taken p.firstAnswer else lit "-1") ++ l₁₂ =
        (Tree.obj (finalTree q p s)).print ++ [newline] := by
  subst h₁ h₂ h₃ h₄ h₅ h₆ h₇ h₈ h₉ h₁₀ h₁₁ h₁₂
  simp only [finalTree, Tree.print, printMembers, List.append_assoc, List.cons_append,
    List.nil_append]

end

theorem final_print (q : Request) (p : Proxy) (s : RunStats) :
    finalEvent q p s = (Tree.obj (finalTree q p s)).print ++ [newline] :=
  final_spelled q p s (by decide +kernel) (by decide +kernel) (by decide +kernel)
    (by decide +kernel) (by decide +kernel) (by decide +kernel) (by decide +kernel)
    (by decide +kernel) (by decide +kernel) (by decide +kernel) (by decide +kernel) (by decide)

theorem flag_length (b : Bool) : (flag b).length ≤ 5 := by
  cases b
  · decide
  · decide

theorem taken_length (n : Nat) : (taken n).length ≤ 20 := by
  unfold taken
  split
  · decide
  · exact (decimal_bounds n).2

/-- The array of the last event holds it. -/
theorem final_length (q : Request) (p : Proxy) (s : RunStats) :
    (finalEvent q p s).length ≤ 511 := by
  have hanswer : (if p.visible then taken p.firstAnswer else lit "-1").length ≤ 20 := by
    split
    · exact taken_length _
    · decide
  have hdecimal (n : Nat) : (decimal n).length ≤ 20 := (decimal_bounds n).2
  have hsum (l₁ l₂ l₃ l₄ l₅ l₆ l₇ l₈ l₉ l₁₀ l₁₁ l₁₂ a : Bytes) (ha : a.length ≤ 20)
      (hl : (l₁ ++ l₂ ++ l₃ ++ l₄ ++ l₅ ++ l₆ ++ l₇ ++ l₈ ++ l₉ ++ l₁₀ ++ l₁₁ ++ l₁₂).length ≤ 300) :
      (l₁ ++ decimal s.tokens ++ l₂ ++ decimal q.generationNs ++ l₃ ++ decimal q.totalNs ++
        l₄ ++ decimal s.promptTokens ++ l₅ ++ decimal s.reused ++ l₆ ++ flag s.limited ++
        l₇ ++ flag p.reasoning ++ l₈ ++ flag (!p.visible) ++ l₉ ++ decimal s.maxTokens ++
        l₁₀ ++ taken p.first ++ l₁₁ ++ a ++ l₁₂).length ≤ 511 := by
    have h₁ := hdecimal s.tokens
    have h₂ := hdecimal q.generationNs
    have h₃ := hdecimal q.totalNs
    have h₄ := hdecimal s.promptTokens
    have h₅ := hdecimal s.reused
    have h₆ := hdecimal s.maxTokens
    have h₇ := taken_length p.first
    have h₈ := flag_length s.limited
    have h₉ := flag_length p.reasoning
    have h₁₀ := flag_length !p.visible
    simp only [List.length_append] at hl ⊢
    omega
  exact hsum _ _ _ _ _ _ _ _ _ _ _ _ _ hanswer (by decide +kernel)

theorem final_body (q : Request) (p : Proxy) (s : RunStats) :
    Body appEvent ((finalEvent q p s).take 511) ⟨[], 1⟩ := by
  have htidy : TidyMembers (finalTree q p s) := by
    have hanswer : IsPrim (if p.visible then taken p.firstAnswer else lit "-1") := by
      split
      · exact isPrim_taken _
      · exact isPrim_taken 0
    exact ⟨tidy_text (by decide), isPrim_flag true, tidy_text (by decide), isPrim_decimal _,
      tidy_text (by decide), isPrim_decimal _, tidy_text (by decide), isPrim_decimal _,
      tidy_text (by decide), isPrim_decimal _, tidy_text (by decide), isPrim_decimal _,
      tidy_text (by decide), isPrim_flag _, tidy_text (by decide), isPrim_flag _,
      tidy_text (by decide), isPrim_flag _, tidy_text (by decide), isPrim_decimal _,
      tidy_text (by decide), isPrim_taken _, tidy_text (by decide), hanswer, trivial⟩
  have hkeys : ∀ key ∈ [lit "response", lit "error"], key ∉ [lit "done", lit "eval_count",
      lit "eval_duration", lit "total_duration", lit "prompt_eval_count", lit "reused",
      lit "limited", lit "reasoning", lit "no_answer", lit "max_tokens",
      lit "first_model_text_ns", lit "first_answer_ns"] := by decide
  have hdone : lookup (lit "done") (finalTree q p s) = (some (lit "true")).map Tree.prim :=
    lookup_cons_eq _ _ _
  have hbody := app_body htidy (Nat.le_of_ble_eq_true rfl) hdone
  rw [lookup_none (hkeys (lit "response") (by simp)), lookup_none (hkeys (lit "error") (by simp)),
    if_pos (.inl rfl)] at hbody
  rw [List.take_of_length_le (final_length q p s), final_print]
  exact hbody

/-! ## The texts of a completion -/

def prefixTree (p : Proxy) (chunk : Bool) (date : Nat) : List (Bytes × Tree) :=
  [(lit "id", .str (p.id.flatMap gdEscape)),
   (lit "object", .str (lit "chat.completion" ++ if chunk then lit ".chunk" else [])),
   (lit "created", .prim (decimal date)), (lit "model", .str (p.model.flatMap gdEscape))]

theorem writes_completionPrefix (b : Buffer) (p : Proxy) (chunk : Bool) (date : Nat) :
    Writes b (completionPrefix b p chunk date) (123 :: printMembers [] (prefixTree p chunk date)) := by
  have hid : lit "\x7b\"id\":" = 123 :: 34 :: (lit "id" ++ [34, 58]) := by decide
  have hobject : lit ",\"object\":\"chat.completion" =
      44 :: 34 :: (lit "object" ++ 34 :: 58 :: 34 :: lit "chat.completion") := by decide
  have hcreated : lit "\",\"created\":" = 34 :: 44 :: 34 :: (lit "created" ++ [34, 58]) := by decide
  have hmodel : lit ",\"model\":" = 44 :: 34 :: (lit "model" ++ [34, 58]) := by decide
  have h := (((writes_put b (lit "\x7b\"id\":")).trans (writes_quote _ p.id)).trans
    (writes_put _ (lit ",\"object\":\"chat.completion" ++ (if chunk then lit ".chunk" else []) ++
      lit "\",\"created\":" ++ decimal date ++ lit ",\"model\":"))).trans (writes_quote _ p.model)
  refine h.of_eq ?_
  rw [hid, hobject, hcreated, hmodel]
  simp only [prefixTree, Tree.print, printMembers, List.append_assoc, List.cons_append,
    List.nil_append, List.append_nil]

theorem prefixTree_print (p : Proxy) (chunk : Bool) (date : Nat) (rest : List (Bytes × Tree)) :
    (Tree.obj (prefixTree p chunk date ++ rest)).print =
      123 :: printMembers [] (prefixTree p chunk date) ++ (printMembers [44] rest ++ [125]) := by
  have h : printMembers [] (prefixTree p chunk date ++ rest) =
      printMembers [] (prefixTree p chunk date) ++ printMembers [44] rest :=
    printMembers_join _ _ _
  rw [Tree.print, h]
  simp only [List.append_assoc, List.cons_append]

theorem TidyMembers.append {ms ms' : List (Bytes × Tree)} (h : TidyMembers ms)
    (h' : TidyMembers ms') : TidyMembers (ms ++ ms') := by
  induction ms with
  | nil => exact h'
  | cons m ms ih => exact ⟨h.1, h.2.1, ih h.2.2⟩

theorem prefixTree_tidy (p : Proxy) (chunk : Bool) (date : Nat) :
    TidyMembers (prefixTree p chunk date) := by
  refine ⟨tidy_text (by decide), tidy_quoted _, tidy_text (by decide), ?_, tidy_text (by decide),
    isPrim_decimal _, tidy_text (by decide), tidy_quoted _, trivial⟩
  cases chunk
  · exact tidy_text (by decide)
  · exact tidy_text (by decide)

theorem lookup_behind {key : Bytes} (p : Proxy) (chunk : Bool) (date : Nat)
    (rest : List (Bytes × Tree))
    (h : key ∉ [lit "id", lit "object", lit "created", lit "model"]) :
    lookup key (prefixTree p chunk date ++ rest) = lookup key rest := by
  simp only [List.mem_cons, not_or] at h
  obtain ⟨hid, hobject, hcreated, hmodel, _⟩ := h
  exact (lookup_cons_ne _ _ (Ne.symm hid)).trans ((lookup_cons_ne _ _ (Ne.symm hobject)).trans
    ((lookup_cons_ne _ _ (Ne.symm hcreated)).trans (lookup_cons_ne _ _ (Ne.symm hmodel))))

def deltaTree (text : Bytes) : Tree :=
  .obj [(lit "index", .prim (lit "0")),
    (lit "delta", .obj [(lit "role", .str (lit "assistant")),
      (lit "content", .str (text.flatMap gdEscape))]),
    (lit "finish_reason", .prim (lit "null"))]

theorem isPrim_zero : IsPrim (lit "0") := ⟨⟨48, by decide, by decide⟩, by decide⟩

theorem isPrim_nullText : IsPrim (lit "null") := ⟨⟨110, by decide, by decide⟩, by decide⟩

theorem deltaTree_tidy (text : Bytes) : TidyTree (deltaTree text) :=
  ⟨tidy_text (by decide), isPrim_zero, tidy_text (by decide),
    ⟨tidy_text (by decide), tidy_text (by decide), tidy_text (by decide), tidy_quoted text,
      trivial⟩,
    tidy_text (by decide), isPrim_nullText, trivial⟩

/-- The text of a choice whose member `part` is a message of the assistant. -/
theorem choice_text {part text : Bytes} {x : Tree} (h : (0 : UInt8) ∉ text)
    (hx : x.get part = some (.obj [(lit "role", .str (lit "assistant")),
      (lit "content", .str (text.flatMap gdEscape))])) : Tree.choice part x = text := by
  have hcontent : (Tree.obj [(lit "role", .str (lit "assistant")),
      (lit "content", .str (text.flatMap gdEscape))]).get (lit "content") =
        some (.str (text.flatMap gdEscape)) :=
    (lookup_cons_ne _ _ (by decide)).trans (lookup_cons_eq _ _ _)
  rw [Tree.choice, hx, Option.bind_some, hcontent, Option.bind_some, quoted_str h]
  rfl

theorem deltaTree_choice {text : Bytes} (h : (0 : UInt8) ∉ text) :
    Tree.choice (lit "delta") (deltaTree text) = text :=
  choice_text h ((lookup_cons_ne _ _ (by decide)).trans (lookup_cons_eq _ _ _))

/-- A chunk with a piece of the answer. -/
theorem chunk_body {p : Proxy} {date : Nat} {text data : Bytes} (h : (0 : UInt8) ∉ text)
    (hdata : data = lit "data: " ++ (123 :: printMembers [] (prefixTree p true date)) ++
      lit (",\"choices\":[\x7b\"index\":0,\"delta\":\x7b\"role\":\"assistant\"," ++ "\"content\":") ++
      (34 :: (text.flatMap gdEscape ++ [34])) ++ lit "\x7d,\"finish_reason\":null\x7d]\x7d\n\n") :
    Body streamEvent data ⟨text, 0⟩ := by
  have hfront : lit (",\"choices\":[\x7b\"index\":0,\"delta\":\x7b\"role\":\"assistant\"," ++
      "\"content\":") = 44 :: 34 :: (lit "choices" ++ 34 :: 58 :: 91 :: 123 :: 34 :: (lit "index" ++
        34 :: 58 :: (lit "0" ++ 44 :: 34 :: (lit "delta" ++ 34 :: 58 :: 123 :: 34 :: (lit "role" ++
          34 :: 58 :: 34 :: (lit "assistant" ++ 34 :: 44 :: 34 :: (lit "content" ++ [34, 58]))))))) := by
    decide
  have hback : lit "\x7d,\"finish_reason\":null\x7d]\x7d\n\n" = 125 :: 44 :: 34 ::
      (lit "finish_reason" ++ 34 :: 58 :: (lit "null" ++ [125, 93, 125, newline, newline])) := by
    decide
  have htidy : TidyMembers (prefixTree p true date ++ [(lit "choices", .arr [deltaTree text])]) :=
    (prefixTree_tidy p true date).append
      ⟨tidy_text (by decide), ⟨deltaTree_tidy text, trivial⟩, trivial⟩
  have hchoices : lookup (lit "choices") (prefixTree p true date ++
      [(lit "choices", .arr [deltaTree text])]) = (some [deltaTree text]).map Tree.arr :=
    (lookup_behind p true date _ (by decide)).trans (lookup_cons_eq _ _ _)
  have herror : lookup (lit "error") (prefixTree p true date ++
      [(lit "choices", .arr [deltaTree text])]) = none :=
    (lookup_behind p true date _ (by decide)).trans (lookup_cons_ne _ _ (by decide))
  have hbody := stream_body htidy (Nat.le_of_ble_eq_true rfl) hchoices
  rw [herror, if_neg (by decide), Option.getD_some, List.flatMap_cons, List.flatMap_nil,
    List.append_nil, deltaTree_choice h, prefixTree_print] at hbody
  rw [hdata, hfront, hback]
  simp only [deltaTree, Tree.print, printItems, printMembers, List.append_assoc, List.cons_append,
    List.nil_append] at hbody ⊢
  exact hbody

/-- The client of a stream is told that the model still prepares. -/
theorem comment_body : Body streamEvent (lit ": preparing\n\n") {} := by
  have heq : lit ": preparing\n\n" = lit ": preparing" ++ [newline] ++ ([] ++ [newline]) := by decide
  have hcomment : Body streamEvent (lit ": preparing" ++ [newline]) {} :=
    .line (by unfold Clean; decide) (if_pos (.inr (by decide)))
  rw [heq]
  exact hcomment.append (.line clean_nil rfl)

/-- The mark behind the last chunk. -/
theorem done_body : Body streamEvent (lit "data: [DONE]\n\n") ⟨[], 1⟩ := by
  have heq : lit "data: [DONE]\n\n" = lit "data: [DONE]" ++ [newline] ++ ([] ++ [newline]) := by decide
  have hdone : streamEvent (lit "data: [DONE]") = some ⟨[], 1⟩ := by
    rw [streamEvent, if_neg (by decide), if_pos rfl]
  rw [heq]
  exact (Body.line (by unfold Clean; decide) hdone).append (.line clean_nil rfl)

/-- An error ends a stream too. -/
theorem errorChunk_body {text data : Bytes}
    (hdata : data = lit "data: \x7b\"error\":\x7b\"message\":" ++
      (34 :: (text.flatMap gdEscape ++ [34])) ++ lit "\x7d\x7d\n\n") :
    Body streamEvent data ⟨[], 1⟩ := by
  have hfront : lit "data: \x7b\"error\":\x7b\"message\":" = lit "data: " ++ 123 :: 34 ::
      (lit "error" ++ 34 :: 58 :: 123 :: 34 :: (lit "message" ++ [34, 58])) := by decide
  have hback : lit "\x7d\x7d\n\n" = [125, 125, newline, newline] := by decide
  have hmessage : TidyTree (.obj [(lit "message", .str (text.flatMap gdEscape))]) :=
    ⟨tidy_text (by decide), tidy_quoted text, trivial⟩
  have htidy : TidyMembers [(lit "error", .obj [(lit "message", .str (text.flatMap gdEscape))])] :=
    ⟨tidy_text (by decide), hmessage, trivial⟩
  have hchoices : lookup (lit "choices")
      [(lit "error", Tree.obj [(lit "message", .str (text.flatMap gdEscape))])] =
        (none : Option (List Tree)).map Tree.arr := lookup_cons_ne _ _ (by decide)
  have hbody := stream_body htidy (Nat.le_of_ble_eq_true rfl) hchoices
  rw [lookup_cons_eq, if_pos Option.isSome_some] at hbody
  rw [hdata, hfront, hback]
  simp only [Tree.print, printMembers, List.append_assoc, List.cons_append, List.nil_append]
    at hbody ⊢
  exact hbody

def lastTree (s : RunStats) : Tree :=
  .obj [(lit "index", .prim (lit "0")), (lit "delta", .obj []),
    (lit "finish_reason", .str ((finishReason s).flatMap gdEscape))]

def usageTree (s : RunStats) : Tree :=
  .obj [(lit "prompt_tokens", .prim (decimal s.promptTokens)),
    (lit "completion_tokens", .prim (decimal s.tokens)),
    (lit "total_tokens", .prim (decimal (s.promptTokens + s.tokens)))]

theorem usageTree_tidy (s : RunStats) : TidyTree (usageTree s) :=
  ⟨tidy_text (by decide), isPrim_decimal _, tidy_text (by decide), isPrim_decimal _,
    tidy_text (by decide), isPrim_decimal _, trivial⟩

theorem usage_print (s : RunStats) :
    usage s = 44 :: 34 :: (lit "usage" ++ 34 :: 58 :: (usageTree s).print) := by
  have h1 : lit ",\"usage\":\x7b\"prompt_tokens\":" = 44 :: 34 :: (lit "usage" ++ 34 :: 58 :: 123 ::
      34 :: (lit "prompt_tokens" ++ [34, 58])) := by decide
  have h2 : lit ",\"completion_tokens\":" = 44 :: 34 :: (lit "completion_tokens" ++ [34, 58]) := by
    decide
  have h3 : lit ",\"total_tokens\":" = 44 :: 34 :: (lit "total_tokens" ++ [34, 58]) := by decide
  have h4 : lit "\x7d" = [125] := by decide
  rw [usage, h1, h2, h3, h4]
  simp only [usageTree, Tree.print, printMembers, List.append_assoc, List.cons_append,
    List.nil_append]

/-- A chunk without text, with the members `rest` behind its prefix. -/
theorem empty_chunk (p : Proxy) (date : Nat) {xs : List Tree} {rest : List (Bytes × Tree)}
    {data : Bytes} (htidy : TidyMembers rest)
    (hcount : (Tree.obj (prefixTree p true date ++ rest)).count ≤ JSON_TOK_CAP)
    (hchoices : lookup (lit "choices") rest = some (.arr xs))
    (hempty : xs.flatMap (Tree.choice (lit "delta")) = [])
    (herror : lookup (lit "error") rest = none)
    (hdata : data = lit "data: " ++ (123 :: printMembers [] (prefixTree p true date)) ++
      (printMembers [44] rest ++ [125]) ++ [newline] ++ [newline]) :
    Body streamEvent data {} := by
  have hfound : lookup (lit "choices") (prefixTree p true date ++ rest) =
      (some xs).map Tree.arr := (lookup_behind p true date _ (by decide)).trans hchoices
  have hnone := (lookup_behind p true date rest (by decide)).trans herror
  have hbody := stream_body ((prefixTree_tidy p true date).append htidy) hcount hfound
  rw [hnone, if_neg (by decide), Option.getD_some, hempty, prefixTree_print] at hbody
  rw [hdata]
  simp only [List.append_assoc, List.cons_append, List.nil_append] at hbody ⊢
  exact hbody

theorem prefix_length (p : Proxy) (chunk : Bool) (date : Nat) :
    (123 :: printMembers [] (prefixTree p chunk date)).length ≤
      6 * (p.id.length + p.model.length) + 150 := by
  have hid := quoted_length p.id
  have hmodel := quoted_length p.model
  have hdate := (decimal_bounds date).2
  have hchunk : (if chunk then lit ".chunk" else []).length ≤ 6 := by
    cases chunk
    · exact Nat.zero_le _
    · decide
  have hobject : (lit "chat.completion").length = 15 := by decide
  have h1 : (lit "id").length = 2 := by decide
  have h2 : (lit "object").length = 6 := by decide
  have h3 : (lit "created").length = 7 := by decide
  have h4 : (lit "model").length = 5 := by decide
  simp only [prefixTree, Tree.print, printMembers, List.length_append, List.length_cons,
    List.length_nil, hobject, h1, h2, h3, h4]
  omega

theorem finishReason_quoted (s : RunStats) :
    ((finishReason s).flatMap gdEscape).length ≤ 36 ∧
      TidyTree (.str ((finishReason s).flatMap gdEscape)) := by
  refine ⟨Nat.le_trans (quoted_length _) ?_, tidy_quoted _⟩
  unfold finishReason
  split
  · decide
  · decide

theorem usage_length (s : RunStats) : (usage s).length ≤ 160 := by
  have h1 := (decimal_bounds s.promptTokens).2
  have h2 := (decimal_bounds s.tokens).2
  have h3 := (decimal_bounds (s.promptTokens + s.tokens)).2
  have hsum (l₁ l₂ l₃ l₄ : Bytes) (hl : (l₁ ++ l₂ ++ l₃ ++ l₄).length ≤ 100) :
      (l₁ ++ decimal s.promptTokens ++ l₂ ++ decimal s.tokens ++ l₃ ++
        decimal (s.promptTokens + s.tokens) ++ l₄).length ≤ 160 := by
    simp only [List.length_append] at hl ⊢
    omega
  exact hsum _ _ _ _ (by decide +kernel)

/-- The last chunk tells why the answer ended. -/
def lastText (p : Proxy) (date : Nat) (s : RunStats) : Bytes :=
  lit "data: " ++ (123 :: printMembers [] (prefixTree p true date)) ++
    lit ",\"choices\":[\x7b\"index\":0," ++ lit "\"delta\":\x7b\x7d," ++ lit "\"finish_reason\":" ++
    (34 :: ((finishReason s).flatMap gdEscape ++ [34])) ++ lit "\x7d]" ++ lit "\x7d" ++ lit "\n\n"

theorem last_body (p : Proxy) (date : Nat) (s : RunStats) :
    Body streamEvent (lastText p date s) {} := by
  have h1 : lit ",\"choices\":[\x7b\"index\":0," = 44 :: 34 :: (lit "choices" ++ 34 :: 58 ::
      91 :: 123 :: 34 :: (lit "index" ++ 34 :: 58 :: (lit "0" ++ [44]))) := by decide
  have h2 : lit "\"delta\":\x7b\x7d," = 34 :: (lit "delta" ++ [34, 58, 123, 125, 44]) := by decide
  have h3 : lit "\"finish_reason\":" = 34 :: (lit "finish_reason" ++ [34, 58]) := by decide
  have h4 : lit "\x7d]" = [125, 93] := by decide
  have h5 : lit "\x7d" = [125] := by decide
  have h6 : lit "\n\n" = [newline, newline] := by decide
  have htidy : TidyMembers [(lit "choices", .arr [lastTree s])] :=
    ⟨tidy_text (by decide), ⟨⟨tidy_text (by decide), isPrim_zero, tidy_text (by decide), trivial,
      tidy_text (by decide), (finishReason_quoted s).2, trivial⟩, trivial⟩, trivial⟩
  have hdelta : (lastTree s).get (lit "delta") = some (.obj []) :=
    (lookup_cons_ne _ _ (by decide)).trans (lookup_cons_eq _ _ _)
  refine empty_chunk p date htidy (Nat.le_of_ble_eq_true rfl) (lookup_cons_eq _ _ _) ?_
    (lookup_cons_ne _ _ (by decide)) ?_
  · rw [List.flatMap_cons, List.flatMap_nil, List.append_nil, Tree.choice, hdelta]
    rfl
  · rw [lastText, h1, h2, h3, h4, h5, h6]
    simp only [lastTree, Tree.print, printItems, printMembers, List.append_assoc, List.cons_append,
      List.nil_append]

/-- The usage is a chunk with no choices. -/
def usageText (p : Proxy) (date : Nat) (s : RunStats) : Bytes :=
  lit "data: " ++ (123 :: printMembers [] (prefixTree p true date)) ++
    (lit ",\"choices\":[]" ++ usage s ++ lit "\x7d\n\n")

theorem usage_body (p : Proxy) (date : Nat) (s : RunStats) :
    Body streamEvent (usageText p date s) {} := by
  have h1 : lit ",\"choices\":[]" = 44 :: 34 :: (lit "choices" ++ [34, 58, 91, 93]) := by decide
  have h2 : lit "\x7d\n\n" = [125, newline, newline] := by decide
  have htidy : TidyMembers [(lit "choices", .arr []), (lit "usage", usageTree s)] :=
    ⟨tidy_text (by decide), trivial, tidy_text (by decide), usageTree_tidy s, trivial⟩
  refine empty_chunk p date htidy (Nat.le_of_ble_eq_true rfl) (lookup_cons_eq _ _ _) rfl
    ((lookup_cons_ne _ _ (by decide)).trans (lookup_cons_ne _ _ (by decide))) ?_
  rw [usageText, h1, h2, usage_print]
  simp only [Tree.print, printItems, printMembers, List.append_assoc, List.cons_append,
    List.nil_append]

/-- What ends a stream. -/
def endText (q : Request) (p : Proxy) (s : RunStats) : Bytes :=
  lastText p q.timing.last.date s ++
    (if q.includeUsage then usageText p q.timing.last.date s else []) ++ lit "data: [DONE]\n\n"

theorem endText_body (q : Request) (p : Proxy) (s : RunStats) :
    Body streamEvent (endText q p s) ⟨[], 1⟩ := by
  have hlast := last_body p q.timing.last.date s
  unfold endText
  split
  · exact (hlast.append (usage_body p q.timing.last.date s)).append done_body
  · exact (hlast.append (.nil _)).append done_body

theorem streamEnd_writes (q : Request) (p : Proxy) (s : RunStats) :
    Writes { cap := 65536 } (streamEnd q p s) (endText q p s) := by
  have hlast : Writes { cap := 65536 } _ (lastText p q.timing.last.date s) :=
    ((((((((writes_put { cap := 65536 } (lit "data: ")).trans
      (writes_completionPrefix _ p true q.timing.last.date)).trans
      (writes_put _ (lit ",\"choices\":[\x7b\"index\":0,"))).trans
      (writes_put _ (lit "\"delta\":\x7b\x7d,"))).trans
      (writes_put _ (lit "\"finish_reason\":"))).trans
      (writes_quote _ (finishReason s))).trans (writes_put _ (lit "\x7d]"))).trans
      (writes_put _ (lit "\x7d"))).trans (writes_put _ (lit "\n\n"))
  unfold streamEnd endText
  refine Writes.trans ?_ (writes_put _ _)
  split
  · exact hlast.trans (((writes_put _ (lit "data: ")).trans (writes_completionPrefix _ p true _)).trans
      (writes_put _ (lit ",\"choices\":[]" ++ usage s ++ lit "\x7d\n\n")))
  · rw [List.append_nil]
    exact hlast

theorem endText_length (q : Request) (p : Proxy) (s : RunStats) :
    (endText q p s).length ≤ 12 * (p.id.length + p.model.length) + 1000 := by
  have hopening := prefix_length p true q.timing.last.date
  have hreason := (finishReason_quoted s).1
  have husage := usage_length s
  have hdone : (lit "data: [DONE]\n\n").length = 14 := by decide
  have hfront : (lit "data: ").length = 6 := by decide
  have hlits : (lit ",\"choices\":[\x7b\"index\":0," ++ lit "\"delta\":\x7b\x7d," ++
      lit "\"finish_reason\":" ++ lit "\x7d]" ++ lit "\x7d" ++ lit "\n\n").length ≤ 100 := by
    decide +kernel
  have hlits' : (lit ",\"choices\":[]" ++ lit "\x7d\n\n").length ≤ 100 := by decide +kernel
  have hlast : (lastText p q.timing.last.date s).length ≤
      6 * (p.id.length + p.model.length) + 300 := by
    unfold lastText
    simp only [List.length_append, List.length_cons, List.length_nil] at hopening hlits ⊢
    omega
  have hthen : (if q.includeUsage then usageText p q.timing.last.date s else []).length ≤
      6 * (p.id.length + p.model.length) + 420 := by
    split
    · unfold usageText
      simp only [List.length_append, List.length_cons] at hopening hlits' ⊢
      omega
    · exact Nat.zero_le _
  unfold endText
  simp only [List.length_append]
  omega

/-! ## Bodies of one piece -/

def messageTree (text : Bytes) (s : RunStats) : Tree :=
  .obj [(lit "index", .prim (lit "0")),
    (lit "message", .obj [(lit "role", .str (lit "assistant")),
      (lit "content", .str (text.flatMap gdEscape))]),
    (lit "finish_reason", .str ((finishReason s).flatMap gdEscape))]

theorem messageTree_choice {text : Bytes} (h : (0 : UInt8) ∉ text) (s : RunStats) :
    Tree.choice (lit "message") (messageTree text s) = text :=
  choice_text h ((lookup_cons_ne _ _ (by decide)).trans (lookup_cons_eq _ _ _))

/-- The members behind the prefix of a body. -/
def wholeTree (text : Bytes) (s : RunStats) : List (Bytes × Tree) :=
  [(lit "choices", .arr [messageTree text s]), (lit "usage", usageTree s)]

theorem wholeTree_print (text : Bytes) (s : RunStats) :
    lit ",\"choices\":[\x7b\"index\":0," ++ lit "\"message\":\x7b\"role\":\"assistant\",\"content\":" ++
      (34 :: (text.flatMap gdEscape ++ [34])) ++ lit "\x7d," ++ lit "\"finish_reason\":" ++
      (34 :: ((finishReason s).flatMap gdEscape ++ [34])) ++ lit "\x7d]" ++ usage s ++ lit "\x7d" =
        printMembers [44] (wholeTree text s) ++ [125] := by
  have h1 : lit ",\"choices\":[\x7b\"index\":0," = 44 :: 34 :: (lit "choices" ++ 34 :: 58 ::
      91 :: 123 :: 34 :: (lit "index" ++ 34 :: 58 :: (lit "0" ++ [44]))) := by decide
  have h2 : lit "\"message\":\x7b\"role\":\"assistant\",\"content\":" = 34 :: (lit "message" ++
      34 :: 58 :: 123 :: 34 :: (lit "role" ++ 34 :: 58 :: 34 :: (lit "assistant" ++ 34 :: 44 :: 34 ::
        (lit "content" ++ [34, 58])))) := by decide
  have h3 : lit "\x7d," = [125, 44] := by decide
  have h4 : lit "\"finish_reason\":" = 34 :: (lit "finish_reason" ++ [34, 58]) := by decide
  have h5 : lit "\x7d]" = [125, 93] := by decide
  have h6 : lit "\x7d" = [125] := by decide
  rw [h1, h2, h3, h4, h5, h6, usage_print]
  simp only [wholeTree, messageTree, Tree.print, printItems, printMembers, List.append_assoc,
    List.cons_append, List.nil_append]

theorem whole_event (q : Request) (p : Proxy) (s : RunStats) (h : (0 : UInt8) ∉ p.text.data)
    (hok : (wholeBody q p s).failed = false) :
    wholeEvent (wholeBody q p s).data = some ⟨p.text.data, 1⟩ := by
  have hwrites : Writes { cap := 65536 } (wholeBody q p s) _ :=
    (((((((((writes_completionPrefix { cap := 65536 } p false q.timing.last.date).trans
      (writes_put _ (lit ",\"choices\":[\x7b\"index\":0,"))).trans
      (writes_put _ (lit "\"message\":\x7b\"role\":\"assistant\",\"content\":"))).trans
      (writes_quote _ p.text.data)).trans (writes_put _ (lit "\x7d,"))).trans
      (writes_put _ (lit "\"finish_reason\":"))).trans (writes_quote _ (finishReason s))).trans
      (writes_put _ (lit "\x7d]"))).trans (writes_put _ (usage s))).trans (writes_put _ (lit "\x7d"))
  have hdata : (wholeBody q p s).data =
      (Tree.obj (prefixTree p false q.timing.last.date ++ wholeTree p.text.data s)).print := by
    rw [hwrites.fresh.1 hok, prefixTree_print, ← wholeTree_print]
    simp only [List.append_assoc, List.cons_append]
  have hmessage : TidyTree (messageTree p.text.data s) :=
    ⟨tidy_text (by decide), isPrim_zero, tidy_text (by decide),
      ⟨tidy_text (by decide), tidy_text (by decide), tidy_text (by decide), tidy_quoted _, trivial⟩,
      tidy_text (by decide), (finishReason_quoted s).2, trivial⟩
  have htidy : TidyMembers (prefixTree p false q.timing.last.date ++ wholeTree p.text.data s) :=
    (prefixTree_tidy p false _).append
      ⟨tidy_text (by decide), ⟨hmessage, trivial⟩, tidy_text (by decide), usageTree_tidy s,
        trivial⟩
  have hchoices : lookup (lit "choices") (prefixTree p false q.timing.last.date ++
      wholeTree p.text.data s) = (some [messageTree p.text.data s]).map Tree.arr :=
    (lookup_behind p false _ _ (by decide)).trans (lookup_cons_eq _ _ _)
  rw [hdata, wholeEvent_print (TidyMembers.valid _ htidy) (Nat.le_of_ble_eq_true rfl) hchoices,
    Option.getD_some, List.flatMap_cons, List.flatMap_nil, List.append_nil, messageTree_choice h]

/-! ## Errors -/

/-- An error text as the daemon's client leaves it: short, and without control characters. -/
def ErrorText (s : Bytes) : Prop := s.length ≤ 255 ∧ Clean s

theorem escape_clean {c : UInt8} (h : 32 ≤ c) : (gdEscape c).length ≤ 2 := by
  unfold gdEscape
  split
  · exact Nat.le_refl _
  · rw [if_neg (UInt8.not_lt.mpr h)]
    exact Nat.le_succ 1

theorem ErrorText.quoted {s : Bytes} (h : ErrorText s) : (s.flatMap gdEscape).length ≤ 510 := by
  have hall : ∀ t : Bytes, Clean t → (t.flatMap gdEscape).length ≤ 2 * t.length := by
    intro t
    induction t with
    | nil => exact fun _ => Nat.le_refl _
    | cons c t ih =>
        intro ht
        have hc := escape_clean (ht c List.mem_cons_self)
        have := ih fun d hd => ht d (List.mem_cons_of_mem c hd)
        rw [List.flatMap_cons, List.length_append, List.length_cons]
        omega
  have := hall s h.2
  have := h.1
  omega

theorem response_view {fd : Fd} (hfd : fd = {}) (status : Nat) (body : Bytes) :
    view (fd.response status (lit "application/json") body).1.sent = wholeEvent body ∧
      (fd.response status (lit "application/json") body).2 = true := by
  have hsent : fd.response status (lit "application/json") body =
      (⟨responseHead status (lit "application/json") body.length ++ body, none⟩, true) := by
    rw [hfd]
    unfold Fd.response
    exact if_pos (responseHead_length status body.length)
  rw [hsent]
  exact ⟨view_response status body, rfl⟩

/-- A body with an error and no choices. -/
theorem error_event (ms : List (Bytes × Tree)) (htidy : TidyMembers ms)
    (hcap : (Tree.obj ms).count ≤ JSON_TOK_CAP) (hchoices : lookup (lit "choices") ms = none) :
    wholeEvent (Tree.obj ms).print = some ⟨[], 1⟩ := by
  have hnone : lookup (lit "choices") ms = (none : Option (List Tree)).map Tree.arr := hchoices
  rw [wholeEvent_print (TidyMembers.valid _ htidy) hcap hnone]
  rfl

theorem errorResponse_view {fd : Fd} (hfd : fd = {}) (code : Nat) {text : Bytes}
    (h : ErrorText text) : view (fd.errorResponse code text).sent = some ⟨[], 1⟩ := by
  have hlen := h.quoted
  have hwrites := ((writes_put { cap := 1024 } (lit "\x7b\"error\":")).trans
    (writes_quote _ text)).trans (writes_put _ (lit "\x7d"))
  have h1 : lit "\x7b\"error\":" = 123 :: 34 :: (lit "error" ++ [34, 58]) := by decide
  have h2 : lit "\x7d" = [125] := by decide
  have h3 : (lit "error").length = 5 := by decide
  have hok := hwrites.fresh.2 (by
    rw [h1, h2]
    simp only [List.length_append, List.length_cons, List.length_nil, h3]
    omega)
  have hevent : wholeEvent (Tree.obj [(lit "error", .str (text.flatMap gdEscape))]).print =
      some ⟨[], 1⟩ :=
    error_event _ ⟨tidy_text (by decide), tidy_quoted text, trivial⟩ (Nat.le_of_ble_eq_true rfl)
      (lookup_cons_ne _ _ (by decide))
  rw [Fd.errorResponse, (response_view hfd code _).1, hwrites.fresh.1 hok, h1, h2, ← hevent]
  simp only [Tree.print, printMembers, List.append_assoc, List.cons_append, List.nil_append]

theorem apiError_view {fd : Fd} (hfd : fd = {}) (code : Nat) {text : Bytes}
    (h : ErrorText text) : view (fd.apiError code text).sent = some ⟨[], 1⟩ := by
  have hlen := h.quoted
  have hcode := (decimal_bounds code).2
  have hwrites := ((writes_put { cap := 1024 } (lit "\x7b\"error\":\x7b\"message\":")).trans
    (writes_quote _ text)).trans
    (writes_put _ (lit ",\"type\":\"invalid_request_error\",\"code\":" ++ decimal code ++
      lit "\x7d\x7d"))
  have h1 : lit "\x7b\"error\":\x7b\"message\":" = 123 :: 34 :: (lit "error" ++ 34 :: 58 :: 123 :: 34 ::
      (lit "message" ++ [34, 58])) := by decide
  have h2 : lit ",\"type\":\"invalid_request_error\",\"code\":" = 44 :: 34 :: (lit "type" ++ 34 :: 58 ::
      34 :: (lit "invalid_request_error" ++ 34 :: 44 :: 34 :: (lit "code" ++ [34, 58]))) := by decide
  have h3 : lit "\x7d\x7d" = [125, 125] := by decide
  have hlits : (lit "error" ++ lit "message" ++ lit "type" ++ lit "invalid_request_error" ++
      lit "code").length ≤ 60 := by decide +kernel
  have hok := hwrites.fresh.2 (by
    rw [h1, h2, h3]
    simp only [List.length_append, List.length_cons, List.length_nil] at hlits ⊢
    omega)
  have hinner : TidyTree (.obj [(lit "message", .str (text.flatMap gdEscape)),
      (lit "type", .str (lit "invalid_request_error")), (lit "code", .prim (decimal code))]) :=
    ⟨tidy_text (by decide), tidy_quoted text, tidy_text (by decide), tidy_text (by decide),
      tidy_text (by decide), isPrim_decimal code, trivial⟩
  have hevent := error_event [(lit "error", .obj [(lit "message", .str (text.flatMap gdEscape)),
      (lit "type", .str (lit "invalid_request_error")), (lit "code", .prim (decimal code))])]
    ⟨tidy_text (by decide), hinner, trivial⟩ (Nat.le_of_ble_eq_true rfl)
    (lookup_cons_ne _ _ (by decide))
  rw [Fd.apiError, (response_view hfd code _).1, hwrites.fresh.1 hok, h1, h2, h3, ← hevent]
  simp only [Tree.print, printMembers, List.append_assoc, List.cons_append, List.nil_append]

end GeistServe.Proofs
